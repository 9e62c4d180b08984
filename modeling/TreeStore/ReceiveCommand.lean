import TreeStore.Buffers
import TreeStore.NodeQueries

/-!
# Messages that receive

A message that asks for nodes is answered from the list: which nodes are found,
and what is printed for them, depends on what the list has alone.
-/

namespace TreeStore

open ByteFile ProgramLogic LinkedRecords GuardedRuns

/-- What is shown of a field with this type. -/
def FieldValue.shown (type : Nat) : FieldValue → Option (List UInt8)
  | .text block => if type = STRING then some (textOf block) else none
  | .word number =>
      if type = INT ∨ type = BOOL then some (decimalText number)
      else if type = FLOAT then some (doubleText (.ofNat number))
      else none

/-- Whether a comparator counts a field as one that satisfies it. -/
def FieldValue.passes (comparator : Comparator) : FieldValue → Bool
  | .text block => TextAsked (textOf block) comparator ∨
      ¬ (comparator.operation = 0 ∨ comparator.operation = 5)
  | .word number =>
      wordPasses comparator.operation (.ofNat number) comparator.kv.valueInt

/-- The comparator looks at the last attribute with its name. -/
def NodeView.satisfies (template : List NodeAttributeInfo) (node : NodeView)
    (comparator : Comparator) : Bool :=
  (lastAttr comparator.kv.key template).any fun position =>
    node.fields[position]?.any (FieldValue.passes comparator)

/-- A node meets filters if there are any, and it satisfies a comparator of
each. -/
def NodeView.meets (template : List NodeAttributeInfo) (filt : List Filter)
    (node : NodeView) : Bool :=
  filt ≠ [] ∧ ∀ filter ∈ filt, ∃ comparator ∈ filter.compList,
    node.satisfies template comparator

/-- The ids of the nodes that a query finds.  A query for the children of a node
looks at all nodes, and every other one at as many as there are attributes. -/
def idsFound (template : List NodeAttributeInfo) (filt : List Filter)
    (list : List NodeView) : List Nat :=
  match filt with
  | [⟨[comparator], _⟩] =>
      if SameText comparator.kv.key parentText then
        idsWhere (fun node =>
          node.parent = comparator.kv.valueInt.toUInt64.toNat) list
      else idsWhere (NodeView.meets template filt) (list.take template.length)
  | _ => idsWhere (NodeView.meets template filt) (list.take template.length)

def titleLine (id : Nat) : List UInt8 :=
  chars "<---- Node " ++ rightText 3 32 (decimalText id) ++ chars "---->\n"

/-- The lines of the fields of a node. -/
def fieldLines : List NodeAttributeInfo → List FieldValue → List (List UInt8)
  | info :: template, field :: fields =>
      ((field.shown info.type).map (fieldLine info.attributeName)).toList ++
        fieldLines template fields
  | _, _ => []

/-- The lines that are sent for an id. -/
def nodeLines (template : List NodeAttributeInfo) (list : List NodeView)
    (id : Nat) : List (List UInt8) :=
  titleLine id :: (list[id]?.map fun node =>
    fieldLines template node.fields).getD []

def receivedLines (template : List NodeAttributeInfo) (filt : List Filter)
    (list : List NodeView) : List (List UInt8) :=
  (idsFound template filt list).flatMap (nodeLines template list)

/-- The response to a message that receives. -/
def receivedText (template : List NodeAttributeInfo) (filt : List Filter)
    (list : List NodeView) : List UInt8 :=
  if idsFound template filt list = [] then chars "<---- No Results ---->\n"
  else chars "<---- Receive Result ---->\n" ++
    (receivedLines template filt list).flatten

/-- The query is for the children of a node, or all its filters are on
attributes. -/
def Answerable (template : List NodeAttributeInfo) (filt : List Filter) :
    Prop :=
  (∃ comparator count, filt = [⟨[comparator], count⟩] ∧
    SameText comparator.kv.key parentText) ∨
  ¬ Special filt ∧ ¬ HasUnknown template filt

section Received

variable {types : List Nat} {list : List NodeView} {world : World}
  {img : Image} {nodes : List NodeImage} {file : List UInt8} {fuel : Nat}

theorem StoreAt.counted_iff {id position type : Nat} {node : NodeImage}
    {record : KeyNode} {comparator : Comparator} (store : StoreAt img nodes file)
    (found : nodes[id]? = some node)
    (tupleAt : TupleAt img.slotOffset record node.parent id node.fields)
    (typed : img.types[position]? = some type) :
    Counted file img.schema type position record comparator ↔
      (node.view img.realSize).fields[position]?.any
        (FieldValue.passes comparator) = true := by
  unfold Counted
  rcases store.field_cases found tupleAt typed with
    ⟨number, shown⟩ | ⟨string, chain, heads, shown⟩
  · rw [if_neg number, shown]
    rfl
  · rw [if_pos string, shown]
    constructor
    · rintro ⟨chain', heads', passes⟩
      rw [heads'.unique heads] at passes
      exact decide_eq_true passes
    · intro passes
      exact ⟨chain, heads, of_decide_eq_true passes⟩

theorem StoreAt.satisfied_iff {id : Nat} {node : NodeImage} {record : KeyNode}
    {comparator : Comparator} (store : StoreAt img nodes file)
    (found : nodes[id]? = some node)
    (tupleAt : TupleAt img.slotOffset record node.parent id node.fields) :
    Satisfied file img.schema record comparator ↔
      (node.view img.realSize).satisfies img.schema.nodesTemplate comparator =
        true := by
  unfold Satisfied NodeView.satisfies
  cases looked : lastAttr comparator.kv.key img.schema.nodesTemplate with
  | none => simp
  | some position =>
      obtain ⟨type, typed⟩ : ∃ type, img.types[position]? = some type :=
        ⟨_, List.getElem?_eq_getElem (by
          rw [Image.types, List.length_map]
          exact lastAttr_lt looked)⟩
      rw [Option.any_some, ← store.counted_iff found tupleAt typed]
      constructor
      · rintro ⟨position', type', same, typed', counted⟩
        cases same
        obtain rfl := Option.some.inj (typed.symm.trans typed')
        exact counted
      · exact fun counted => ⟨position, type, rfl, typed, counted⟩

theorem StoreAt.meets_iff {id : Nat} {node : NodeImage} {record : KeyNode}
    {filt : List Filter} (store : StoreAt img nodes file)
    (found : nodes[id]? = some node)
    (tupleAt : TupleAt img.slotOffset record node.parent id node.fields) :
    filt ≠ [] ∧ Meets file img.schema record filt ↔
      (node.view img.realSize).meets img.schema.nodesTemplate filt = true := by
  unfold Meets NodeView.meets
  simp only [store.satisfied_iff found tupleAt, decide_eq_true_iff]

theorem StoreAt.shown_iff {id position : Nat} {node : NodeImage}
    {record : KeyNode} {info : NodeAttributeInfo} {text : List UInt8}
    (store : StoreAt img nodes file) (found : nodes[id]? = some node)
    (tupleAt : TupleAt img.slotOffset record node.parent id node.fields)
    (typed : img.schema.nodesTemplate[position]? = some info) :
    Shown file img.schema info.type (record.word position) text ↔
      (node.view img.realSize).fields[position]?.bind
        (FieldValue.shown info.type) = some text := by
  have typed' : img.types[position]? = some info.type := by
    rw [Image.types, List.getElem?_map, typed]
    rfl
  unfold Shown
  rcases store.field_cases found tupleAt typed' with
    ⟨number, shown⟩ | ⟨string, chain, heads, shown⟩
  · rw [if_neg number, shown, Option.bind_some, FieldValue.shown]
    split_ifs with whole float
    · rw [Option.some_inj, eq_comm]
    · rw [Option.some_inj, and_iff_right float, eq_comm]
    · simp [float]
  · rw [if_pos string, shown, Option.bind_some, FieldValue.shown,
      if_pos string, Option.some_inj]
    constructor
    · rintro ⟨chain', heads', rfl⟩
      rw [heads'.unique heads]
    · rintro rfl
      exact ⟨chain, heads, rfl⟩

/-- The ids behind the counter have no entries, as far as there are
attributes. -/
theorem StoreAt.used {id offset : Nat} (store : StoreAt img nodes file)
    (counted : id < img.templateSize)
    (entry : img.schema.root[id]? = some offset) (nonzero : offset ≠ 0) :
    id < img.curId := by
  by_contra behind
  have unit := idUnit_mul img.templateSize
  have wide := mul_le_getRealNodeSize img.templateSize
  have zero := store.fresh id (not_lt.mp behind) (by omega)
  exact nonzero (Option.some.inj (entry.symm.trans zero))

theorem StoreAt.scannable (store : StoreAt img nodes file)
    (ended : Ended (nodes.map (NodeImage.view img.realSize))) :
    Scannable file img.schema := by
  apply (store.searchable ended).scannable
  intro id offset behind counted entry
  by_contra nonzero
  exact absurd (store.used counted entry nonzero) (not_lt.mpr behind)

/-- Behind the ids in use the scan of the filters meets no entry. -/
theorem StoreAt.scanned_iff {id : Nat} {record : KeyNode}
    (store : StoreAt img nodes file) : Scanned file img.schema id record ↔
      id < img.templateSize ∧ ∃ offset, LiveAt img.schema id offset ∧
        RecordAt file img.schema offset record := by
  constructor
  · rintro ⟨counted, offset, entry, nonzero, here⟩
    refine ⟨counted, offset, ⟨?_, entry, nonzero⟩, here⟩
    exact store.used counted entry nonzero
  · rintro ⟨counted, offset, live, here⟩
    exact ⟨counted, offset, live.entry, live.nonzero, here⟩

/-- A result with these ids, each of which comes with its record. -/
structure Finds (file : List UInt8) (schema : TreeSchema) (ids : List Nat)
    (result : List FoundNode) : Prop where
  named : result.map (·.id) = ids
  own : ∀ node ∈ result, ∃ offset record, LiveAt schema node.id offset ∧
    RecordAt file schema offset record ∧ node.HasRecord schema record

/-- The scan of the filters finds what it would find in the list. -/
theorem StoreAt.wp_scan {filt : List Filter}
    (store : StoreAt img nodes world.file)
    (ended : Ended (nodes.map (NodeImage.view img.realSize)))
    (enough : world.file.length ≤ fuel) (terminated : Terminated filt)
    (plain : ¬ Special filt)
    (known : ¬ HasUnknown img.schema.nodesTemplate filt) :
    wp (storageFindNodeByFilters fuel filt img.schema.nodesTemplate)
      (fun outcome final => final.file = world.file ∧ outcome.1 = 0 ∧
        Finds world.file img.schema
          (idsWhere (NodeView.meets img.schema.nodesTemplate filt)
            ((nodes.map (NodeImage.view img.realSize)).take
              img.schema.nodesTemplate.length)) outcome.2) world := by
  classical
  have sized : img.schema.nodesTemplate.length = img.templateSize :=
    store.holds.valid.template_length
  apply wp_mono ((store.scannable ended).wp_storageFindNodeByFilters_known
    enough terminated plain known)
  rintro ⟨code, result⟩ final ⟨same, success, ids, own⟩
  dsimp only at success ids own ⊢
  refine ⟨same, success, ?_, ?_⟩
  · rw [ids]
    apply List.Pairwise.eq_of_mem_iff _ (pairwise_idsWhere _ _)
    · intro id
      rw [List.mem_reverse, List.mem_filter, List.mem_range, decide_eq_true_iff,
        mem_idsWhere, sized]
      have live_iff := @StoreAt.exists_live_iff _ _ _ id
        (fun record => filt ≠ [] ∧ Meets world.file img.schema record filt)
        (NodeView.meets img.schema.nodesTemplate filt) store
        fun node record found tupleAt => store.meets_iff found tupleAt
      constructor
      · rintro ⟨counted, some_filter, record, scanned, meets⟩
        obtain ⟨-, offset, live, here⟩ := store.scanned_iff.mp scanned
        rw [List.getElem?_take_of_lt counted]
        exact live_iff.mp ⟨offset, record, live, here, some_filter, meets⟩
      · rintro ⟨view, viewed, meets⟩
        -- a position in the first part is the same position in the list
        have counted : id < img.templateSize := by
          have inside := (List.getElem?_eq_some_iff.mp viewed).1
          rw [List.length_take] at inside
          omega
        rw [List.getElem?_take_of_lt counted] at viewed
        obtain ⟨offset, record, live, here, some_filter, holds⟩ :=
          live_iff.mpr ⟨view, viewed, meets⟩
        exact ⟨counted, some_filter, record,
          store.scanned_iff.mpr ⟨counted, offset, live, here⟩, holds⟩
    · rw [List.pairwise_reverse]
      exact List.pairwise_lt_range.filter _
  · intro node member
    obtain ⟨record, scanned, has⟩ := own node member
    obtain ⟨-, offset, live, here⟩ := store.scanned_iff.mp scanned
    exact ⟨offset, record, live, here, has⟩

section Printing

variable {schema : TreeSchema} {record value : KeyNode} {iter : Nat}
  {overflow : Prog Unit} {fields : List FieldValue}

/-- The fields are what is shown for the words of the record. -/
def ShowsFields (file : List UInt8) (schema : TreeSchema) (record : KeyNode)
    (fields : List FieldValue) : Prop :=
  ∀ (position : Nat) (info : NodeAttributeInfo),
    schema.nodesTemplate[position]? = some info →
      ∃ field, fields[position]? = some field ∧ ∀ text,
        Shown file schema info.type (record.word position) text ↔
          field.shown info.type = some text

theorem wp_receiveFields {rest : List NodeAttributeInfo}
    {response : List UInt8} (stored : SchemaAt world.file schema)
    (small : world.file.length < 2 ^ 63)
    (strings : ShowsStrings world.file schema record)
    (enough : world.file.length ≤ fuel)
    (started : value.data.take schema.realSize = record.data)
    (shows : ShowsFields world.file schema record fields)
    (left : schema.nodesTemplate.drop iter = rest)
    (fits : ∀ line ∈ fieldLines rest (fields.drop iter), line.length < 256) :
    wp (receiveFields overflow fuel schema.treeMeta.templateSize false
      (some value) iter rest response) (fun text final =>
        final.file = world.file ∧
          text = response ++ (fieldLines rest (fields.drop iter)).flatten)
      world := by
  induction rest generalizing iter world response with
  | nil =>
      rw [receiveFields, wp_pure]
      exact ⟨rfl, (List.append_nil response).symm⟩
  | cons info rest ih =>
      obtain ⟨typed, left'⟩ := getElem?_of_drop_eq_cons left
      obtain ⟨field, found, same_text⟩ := shows iter info typed
      obtain ⟨inside, here⟩ := List.getElem?_eq_some_iff.mp found
      rw [List.drop_eq_getElem_cons inside, here] at fits ⊢
      rw [receiveFields, wp_bind]
      apply wp_mono (wp_shownText stored small strings enough started typed)
      rintro shown middle ⟨same, printed⟩
      have shownEq : shown = field.shown info.type :=
        Option.ext fun text => (printed text).trans (same_text text)
      have onward := fun response => @ih middle (iter + 1) response
        (by rw [same]; exact stored) (by rw [same]; exact small)
        (by rw [same]; exact strings) (by rw [same]; exact enough)
        (by rw [same]; exact shows) left'
      rw [same] at onward
      rw [fieldLines, ← shownEq] at fits ⊢
      cases shown with
      | none =>
          exact onward response fits
      | some text =>
          have short : (fieldLine info.attributeName text).length < 256 :=
            fits _ (List.mem_cons_self ..)
          dsimp only
          rw [sprintf, requires, if_pos short, pure_bind]
          apply wp_mono (onward _ fun line member =>
            fits line (List.mem_cons_of_mem _ member))
          rintro text' final ⟨same', rfl⟩
          exact ⟨same', List.append_assoc ..⟩

/-- The lines of a node whose record shows these fields. -/
theorem wp_receiveNode {node : FoundNode} {response : List UInt8}
    (stored : SchemaAt world.file schema)
    (small : world.file.length < 2 ^ 63)
    (strings : ShowsStrings world.file schema record)
    (enough : world.file.length ≤ fuel) (has : node.HasRecord schema record)
    (shows : ShowsFields world.file schema record fields)
    (fits : ∀ line ∈ titleLine node.id ::
      fieldLines schema.nodesTemplate fields, line.length < 256) :
    wp (receiveNode overflow fuel schema.treeMeta.templateSize
      schema.nodesTemplate false node response) (fun text final =>
        final.file = world.file ∧ text = response ++ (titleLine node.id ::
          fieldLines schema.nodesTemplate fields).flatten) world := by
  obtain ⟨value, given, -, started⟩ := has
  have short : (titleLine node.id).length < 256 := fits _ (List.mem_cons_self ..)
  have lines := @wp_receiveFields world fuel schema record value 0 overflow
    fields schema.nodesTemplate (response ++ titleLine node.id) stored small
    strings enough started shows List.drop_zero fun line member =>
      fits line (List.mem_cons_of_mem _ member)
  unfold titleLine at *
  rw [receiveNode, given, sprintf, requires, if_pos short, pure_bind]
  apply wp_mono lines
  rintro text final ⟨same, rfl⟩
  refine ⟨same, ?_⟩
  rw [List.drop_zero, List.flatten_cons, List.append_assoc]

end Printing

/-- The record of a node shows the fields that the list has. -/
theorem StoreAt.showsFields {id : Nat} {node : NodeImage} {record : KeyNode}
    (store : StoreAt img nodes file) (found : nodes[id]? = some node)
    (tupleAt : TupleAt img.slotOffset record node.parent id node.fields) :
    ShowsFields file img.schema record (node.view img.realSize).fields := by
  intro position info typed
  have inside : position < (node.view img.realSize).fields.length := by
    have fieldsAt := (store.layout.nodeAt id node found).fieldsAt
    have counted := (List.getElem?_eq_some_iff.mp typed).1
    rw [NodeImage.view, NodeImage.values, List.length_map, fieldsAt.count,
      List.length_map]
    exact counted
  have here := List.getElem?_eq_getElem inside
  refine ⟨_, here, fun text => ?_⟩
  rw [store.shown_iff found tupleAt typed, here, Option.bind_some]

/-- The loop over the result appends the lines of its nodes. -/
theorem StoreAt.wp_receiveFound {overflow : Prog Unit} {ids : List Nat}
    {result : List FoundNode} {response : List UInt8}
    (store : StoreAt img nodes world.file)
    (ended : Ended (nodes.map (NodeImage.view img.realSize)))
    (enough : world.file.length ≤ fuel)
    (finds : Finds world.file img.schema ids result)
    (fits : ∀ line ∈ ids.flatMap (nodeLines img.schema.nodesTemplate
      (nodes.map (NodeImage.view img.realSize))), line.length < 256) :
    wp (result.foldlM (fun response node => receiveNode overflow fuel
      img.templateSize img.schema.nodesTemplate false node response) response)
      (fun text final => final.file = world.file ∧ text = response ++
        (ids.flatMap (nodeLines img.schema.nodesTemplate
          (nodes.map (NodeImage.view img.realSize)))).flatten) world := by
  obtain ⟨rfl, own⟩ := finds
  induction result generalizing world response with
  | nil =>
      rw [List.foldlM_nil, wp_pure]
      exact ⟨rfl, (List.append_nil response).symm⟩
  | cons node result ih =>
      obtain ⟨offset, record, live, here, has⟩ := own node (List.mem_cons_self ..)
      obtain ⟨image, found, rfl⟩ := store.node_of_live live
      obtain ⟨record', there, tupleAt⟩ :=
        (store.layout.nodeAt node.id image found).tuple
      obtain rfl := here.unique (store.recordAt there)
      have lines : nodeLines img.schema.nodesTemplate
          (nodes.map (NodeImage.view img.realSize)) node.id =
          titleLine node.id :: fieldLines img.schema.nodesTemplate
            (image.view img.realSize).fields := by
        rw [nodeLines, List.getElem?_map, found]
        rfl
      have searchable := store.searchable ended
      rw [List.map_cons, List.flatMap_cons, lines] at fits ⊢
      rw [List.foldlM_cons]
      apply wp_bind_of (wp_receiveNode searchable.stored searchable.small
        (fun position => searchable.strings node.id _ record position live here)
        enough has (store.showsFields found tupleAt) fun line member =>
          fits line (List.mem_append_left _ member))
      rintro text middle ⟨same, rfl⟩
      have onward := @ih middle (response ++ (titleLine node.id ::
          fieldLines img.schema.nodesTemplate
            (image.view img.realSize).fields).flatten)
        (by rw [same]; exact store) (by rw [same]; exact enough)
        (by rw [same]; exact fun other inside =>
          own other (List.mem_cons_of_mem _ inside))
        (fun line member => fits line (List.mem_append_right _ member))
      rw [same] at onward
      apply wp_mono onward
      rintro text final ⟨same', rfl⟩
      refine ⟨same', ?_⟩
      rw [List.flatten_append, List.append_assoc]

/-- The children of a node are those that the list has. -/
theorem StoreAt.wp_parentQuery {comparator : Comparator}
    {count : [comparator].length ≤ 20} {template : List NodeAttributeInfo}
    (store : StoreAt img nodes world.file)
    (key : SameText comparator.kv.key parentText) :
    wp (storageFindNodeByFilters fuel [⟨[comparator], count⟩] template)
      (fun outcome final => final.file = world.file ∧ outcome.1 = 0 ∧
        Finds world.file img.schema (idsWhere (fun node =>
          node.parent = comparator.kv.valueInt.toUInt64.toNat)
            (nodes.map (NodeImage.view img.realSize))) outcome.2) world := by
  have tuples := store.wellFormed.apartTuples.toTuples
  apply wp_mono (tuples.wp_parentQuery key)
  rintro ⟨code, result⟩ final ⟨same, success, found, lists, delivered⟩
  dsimp only at success delivered ⊢
  refine ⟨same, success, ?_, ?_⟩
  · rw [delivered, List.map_map]
    apply lists.ids_eq
    exact fun id => store.exists_live_iff fun node record _ tupleAt => by
      rw [tupleAt.header]
      exact (decide_eq_true_iff).symm
  · intro node member
    rw [delivered] at member
    obtain ⟨entry, inside, rfl⟩ := List.mem_map.mp member
    obtain ⟨offset, record, live, here, header, started⟩ := lists.own entry inside
    exact ⟨offset, record, live, here, entry.value, rfl, header, started⟩

/-- A search finds what it would find in the list. -/
theorem StoreAt.wp_storageFindNodeByFilters {filt : List Filter}
    (store : StoreAt img nodes world.file)
    (ended : Ended (nodes.map (NodeImage.view img.realSize)))
    (enough : world.file.length ≤ fuel) (terminated : Terminated filt)
    (answerable : Answerable img.schema.nodesTemplate filt) :
    wp (storageFindNodeByFilters fuel filt img.schema.nodesTemplate)
      (fun outcome final => final.file = world.file ∧ outcome.1 = 0 ∧
        Finds world.file img.schema (idsFound img.schema.nodesTemplate filt
          (nodes.map (NodeImage.view img.realSize))) outcome.2) world := by
  rcases answerable with ⟨comparator, count, rfl, key⟩ | ⟨plain, known⟩
  · rw [idsFound, if_pos key]
    exact store.wp_parentQuery key
  · have scan := store.wp_scan ended enough terminated plain known
    unfold idsFound
    split
    · next comparator count =>
        rw [if_neg fun parent => plain ⟨comparator, count, rfl, Or.inl parent⟩]
        exact scan
    · exact scan

theorem Answerable.not_byId {template : List NodeAttributeInfo} {query : Query}
    (answerable : Answerable template query.filtersList) :
    query.byId = false := by
  unfold Query.byId
  split
  · next comparator count filt =>
      apply decide_eq_false
      intro id
      rcases answerable with ⟨comparator', count', filt', parent⟩ | ⟨plain, -⟩
      · rw [filt] at filt'
        cases filt'
        revert parent
        rw [SameText, id]
        decide
      · exact plain ⟨comparator, count, filt, Or.inr id⟩
  · rfl

/-- The handler receives what the list has. -/
theorem Mirrors.wp_receive {schema : TreeSchema} {overflow : Prog Unit}
    {address : Nat → UInt64} {stack : Nat} {query : Query}
    (mirrors : Mirrors types world.file list)
    (stored : SchemaAt world.file schema) (ended : Ended list)
    (enough : world.file.length ≤ fuel) (receives : query.command = 0)
    (terminated : Terminated query.filtersList)
    (answerable : Answerable schema.nodesTemplate query.filtersList)
    (fits : ∀ line ∈ receivedLines schema.nodesTemplate query.filtersList list,
      line.length < 256) :
    wp (handleQuery overflow address fuel stack query) (fun text final =>
      final.file = world.file ∧
        text = receivedText schema.nodesTemplate query.filtersList list)
      world := by
  obtain ⟨img, nodes, store, -, rfl, rfl⟩ := mirrors
  obtain rfl := stored.unique ⟨store.holds.valid, store.holds.schemaHere⟩
  rw [handleQuery, wp_bind]
  apply stored.wp_readTreeSchema
  intro blocks
  dsimp only
  rw [if_pos receives, visitFound]
  apply wp_bind_of (StoreAt.wp_storageFindNodeByFilters (by exact store) ended
    (by exact enough) terminated answerable)
  rintro ⟨code, result⟩ middle ⟨same, success, finds⟩
  dsimp only at success finds ⊢
  have file : middle.file = world.file := same
  have found : result = [] ↔ idsFound img.schema.nodesTemplate
      query.filtersList (nodes.map (NodeImage.view img.realSize)) = [] := by
    rw [← finds.named, List.map_eq_nil_iff]
  rw [if_neg (by omega), receivedText]
  by_cases none : result = []
  · rw [if_pos none, if_pos (found.mp none), wp_pure]
    exact ⟨same, rfl⟩
  · rw [if_neg none, if_neg (mt found.mpr none)]
    have lines := @StoreAt.wp_receiveFound middle img nodes fuel overflow _
      result (chars "<---- Receive Result ---->\n") (by rw [file]; exact store)
      ended (by rw [file]; exact enough) (by rw [file]; exact finds) fits
    rw [file] at lines
    unfold Query.visit
    simp only [if_pos receives, answerable.not_byId]
    exact lines

end Received

/-- After every run of faithful calls, a message that receives is answered with
the lines of the nodes that the query finds in the list, as far as they fit into
the block of the handler, and the file stays as it is. -/
theorem receive_refines {specs : List AttributeSpec} {calls : List Op}
    {world : World} {schema : TreeSchema} {overflow : Prog Unit}
    {address : Nat → UInt64} {fuel stack : Nat} {query : Query}
    (ran : Ran specs Faithful calls world.file)
    (stored : SchemaAt world.file schema)
    (ended : Ended (listAfter (specs.map (·.type)) calls))
    (enough : world.file.length ≤ fuel) (receives : query.command = 0)
    (terminated : Terminated query.filtersList)
    (answerable : Answerable schema.nodesTemplate query.filtersList)
    (fits : ∀ line ∈ receivedLines schema.nodesTemplate query.filtersList
      (listAfter (specs.map (·.type)) calls), line.length < 256) :
    wp (handleQuery overflow address fuel stack query) (fun text final =>
      final.file = world.file ∧
        text = receivedText schema.nodesTemplate query.filtersList
          (listAfter (specs.map (·.type)) calls)) world :=
  (mirrors_of_ran ran).wp_receive stored ended enough receives terminated
    answerable fits

/-- The message that `n: 7` is received by. -/
def receiveSeven : Query :=
  { childrenOfSeven with
    filtersList := [always [110, 0] 0 7]
    filtersList_le := by decide }

theorem answerable_receiveSeven : Answerable
    [{ size := 4, type := INT, attributeName := [110, 0, 0, 0] }]
    receiveSeven.filtersList := by
  right
  constructor
  · rintro ⟨comparator, count, same, key⟩
    obtain rfl : comparator = _ :=
      (List.singleton_inj.mp
        (congrArg Filter.compList (List.singleton_inj.mp same))).symm
    revert key
    decide
  · rintro ⟨filter, inside, comparator, there, unknown⟩
    obtain rfl := List.mem_singleton.mp inside
    obtain rfl := List.mem_singleton.mp there
    exact unknown ⟨_, List.mem_singleton_self _, by decide⟩

theorem receive_refines_seven :
    wp (handleQuery (throw .outOfBounds) (fun _ => 0) oneSeven.length 0
      receiveSeven) (fun text final => final.file = oneSeven ∧
        text = chars ("<---- Receive Result ---->\n<---- Node   0---->\n" ++
          "n                    7\n")) (blankWorld oneSeven) := by
  obtain ⟨-, stored, -, -, template⟩ := oneSeven_stored
  have ran := ran_seven
  generalize oneSeven = file at ran stored template ⊢
  have answered := @receive_refines [singleSpec INT number_lt]
    [.add [⟨7, []⟩] 7] (blankWorld file) (schemaOf file) (throw .outOfBounds)
    (fun _ => 0) _ 0 receiveSeven ran stored (by decide) le_rfl rfl
    terminated_always
  rw [template] at answered
  apply answered answerable_receiveSeven
  decide +kernel

end TreeStore
