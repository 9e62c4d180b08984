import TreeStore.Commands
import TreeStore.Inserting
import TreeStore.Numerals
import TreeStore.Searching

/-!
# What the command `find_by` answers

The searches for the children of a node, and for the node with an id.
-/

namespace TreeStore

open ByteFile ProgramLogic

open Classical in
/-- The characters of the string that begins at `offset`. -/
noncomputable def stringAt (file : List UInt8) (schema : TreeSchema)
    (offset : Nat) : List UInt8 :=
  if string : ∃ chain, ForwardChain file schema offset chain then
    assemble schema.realSize string.choose
  else []

/-- A field of a record, as `getNode` delivers it. -/
noncomputable def fieldAt (file : List UInt8) (schema : TreeSchema)
    (record : KeyNode) (position : Nat) : FieldValue :=
  if schema.types[position]? = some STRING then
    .text (stringAt file schema (record.word position))
  else .word (record.word position)

/-- The fields of a record. -/
noncomputable def fieldsOf (file : List UInt8) (schema : TreeSchema)
    (record : KeyNode) : List FieldValue :=
  (List.range schema.types.length).map (fieldAt file schema record)

/-- A field printed by its own type. -/
def shownField (info : NodeAttributeInfo) : FieldValue → Line
  | .word value =>
      if info.type = INT then
        ⟨"%-20s: %ld\n", [.text info.nameText, .number value]⟩
      else if info.type = BOOL then
        ⟨"%-20s: %d\n", [.text info.nameText,
          .number (if value ≠ 0 then 1 else 0)]⟩
      else ⟨"%-20s: % lf\n", [.text info.nameText, .double value]⟩
  | .text block =>
      ⟨"%-20s: %s\n", [.text info.nameText, .text (textOf block)]⟩

/-- All fields of a record, each printed by its own type. -/
noncomputable def shownLines (file : List UInt8) (schema : TreeSchema)
    (record : KeyNode) : List Line :=
  List.zipWith shownField schema.nodesTemplate (fieldsOf file schema record)

/-- The messages for an id that is not there. -/
def NotFound (line : Line) : Prop :=
  line.format = "Id is too large: %lu\n" ∨
    line.format = "No result of operation\n"

/-- The answer to the search for an id: all fields of the node if it is live,
and one message otherwise. -/
structure AnswersId (file : List UInt8) (schema : TreeSchema) (id : Nat)
    (output : Output) : Prop where
  live : ∀ offset record, LiveAt schema id offset →
    RecordAt file schema offset record →
    output = ⟨shownLines file schema record, none⟩
  dead : (¬ ∃ offset, LiveAt schema id offset) →
    ∃ line, NotFound line ∧ output = ⟨[line], none⟩

/-- The list of the ids that were found. -/
def foundLines (found : List ResultSetNode) : List Line :=
  if found = [] then [⟨"No result present\n", []⟩]
  else ⟨"<----- Result set ----->\n", []⟩ ::
    found.map fun node => ⟨"id: %lu\n", [.number node.id]⟩

/-- The answer to the search for the children of a node. -/
def AnswersParent (file : List UInt8) (schema : TreeSchema) (parent : Nat)
    (output : Output) : Prop :=
  ∃ found, Lists file schema
    (fun _ record => record.header.parentNode = parent) found ∧
      output = ⟨foundLines found, none⟩

/-- Some live node has this parent. -/
def HasChild (file : List UInt8) (schema : TreeSchema) (parent : Nat) : Prop :=
  ∃ id offset record, LiveAt schema id offset ∧
    RecordAt file schema offset record ∧ record.header.parentNode = parent

/-- The live id `other` shows the same fields as the live id `id`, none of them
a FLOAT. -/
def ShowsAs (file : List UInt8) (schema : TreeSchema) (id other : Nat) : Prop :=
  FLOAT ∉ schema.types ∧ ∃ offset record offset' record',
    LiveAt schema id offset ∧ RecordAt file schema offset record ∧
      LiveAt schema other offset' ∧ RecordAt file schema offset' record' ∧
        shownLines file schema record' = shownLines file schema record

theorem ForwardChain.stringAt_eq {file : List UInt8} {schema : TreeSchema}
    {offset : Nat} {chain : List (Nat × List UInt8)}
    (string : ForwardChain file schema offset chain) :
    stringAt file schema offset = assemble schema.realSize chain := by
  have found : ∃ chain, ForwardChain file schema offset chain :=
    ⟨chain, string⟩
  rw [stringAt, dif_pos found, found.choose_spec.unique string]

section Fields

variable {world : World} {schema : TreeSchema} {fuel id offset : Nat}
  {record : KeyNode}

/-- `getNode` delivers the fields of a live id. -/
theorem Searchable.wp_getNode (store : Searchable world.file schema)
    (enough : world.file.length ≤ fuel) (live : LiveAt schema id offset)
    (here : RecordAt world.file schema offset record) :
    wp (getNode fuel id) (fun values final => final.file = world.file ∧
      values = some (fieldsOf world.file schema record)) world := by
  rw [getNode, wp_bind]
  apply wp_unsetWord
  intro unset blocks
  rw [wp_bind]
  apply SchemaAt.wp_convItoO (by exact store.stored) live
  intro pos blocks
  dsimp only
  rw [if_neg (by decide), wp_bind]
  apply SchemaAt.wp_getTypes (by exact store.stored)
  intro blocks
  dsimp only
  rw [wp_bind]
  apply wp_fseekSet_toLong (by
    have := here.length_le
    have := store.small
    omega)
  rw [wp_bind]
  apply RecordAt.wp_readNode (by exact here) rfl rfl
  intro data status pos blocks started _
  dsimp only
  rw [wp_bind]
  apply wp_mono (wp_foldlM_range (fun index values middle =>
    middle.file = world.file ∧
      values = (List.range index).map (fieldAt world.file schema record))
    schema.treeMeta.templateSize ⟨rfl, rfl⟩ ?_)
  · rintro values final ⟨same, rfl⟩
    rw [wp_pure, fieldsOf, store.stored.types_length]
    exact ⟨same, rfl⟩
  · rintro index small values middle ⟨same, rfl⟩
    have inside : index < schema.types.length := by
      rw [store.stored.types_length]
      exact small
    have word : (KeyNode.mk record.header data).word index =
        record.word index :=
      Image.word_of_take started (store.stored.word_inside inside)
    rw [word]
    by_cases string : schema.types[index]? = some STRING
    · obtain ⟨chain, heads, -⟩ :=
        store.strings id offset record index live here string
      rw [if_pos string, wp_bind]
      apply ForwardChain.wp_readStringFromNode (by rw [same]; exact heads)
        (by rw [same]; exact store.small) (heads.length_le.trans enough) rfl
      intro pos blocks
      rw [wp_pure, List.range_succ, List.map_append, List.map_singleton,
        fieldAt, if_pos string, heads.stringAt_eq]
      exact ⟨same, rfl⟩
    · rw [if_neg string, wp_pure, List.range_succ, List.map_append,
        List.map_singleton, fieldAt, if_neg string]
      exact ⟨same, rfl⟩

end Fields

/-- The formats that fields are printed with. -/
def FieldFormat (line : Line) : Prop :=
  line.format = "%-20s: %ld\n" ∨ line.format = "%-20s: %d\n" ∨
    line.format = "%-20s: % lf\n" ∨ line.format = "%-20s: %s\n"

theorem FieldFormat.not_notFound {line : Line} (printed : FieldFormat line) :
    ¬ NotFound line := by
  rintro (large | missing)
  · rw [FieldFormat, large] at printed
    revert printed
    decide
  · rw [FieldFormat, missing] at printed
    revert printed
    decide

/-- The field has the shape that its type asks for: a string is a terminated
block, and what is no string is a word. -/
def Shaped (info : NodeAttributeInfo) : FieldValue → Prop
  | .word _ => info.type ≠ STRING
  | .text block => info.type = STRING ∧ 0 ∈ block

section Printing

variable {world final : World} {template : List NodeAttributeInfo}
  {fields : List FieldValue}

/-- Fields are printed up to the first FLOAT. -/
theorem wp_printFields (typed : Typed template)
    (shaped : List.Forall₂ Shaped template fields) :
    wp (printFields template fields) (fun output final => final = world ∧
      ((∀ info ∈ template, info.type ≠ FLOAT) → output =
        ⟨List.zipWith shownField template fields, none⟩) ∧
      ((∃ info ∈ template, info.type = FLOAT) →
        output.misuse = some .wordAsString)) world := by
  induction shaped with
  | nil =>
      rw [printFields, wp_pure]
      simp
  | @cons info field template fields here shaped ih =>
      have onward := ih fun other member =>
        typed other (List.mem_cons_of_mem info member)
      have small := typed info (List.mem_cons_self ..)
      cases field with
      | word value =>
          unfold printFields
          dsimp only
          by_cases int : info.type = INT
          · have other : info.type ≠ FLOAT := by
              rw [int]
              decide
            rw [if_pos int, wp_bind]
            apply wp_mono onward
            rintro output final ⟨same, whole, stops⟩
            rw [wp_pure]
            simp only [List.forall_mem_cons, List.exists_mem_cons_iff, other,
              ne_eq, not_false_eq_true, true_and, false_or,
              List.zipWith_cons_cons, shownField, if_pos int]
            refine ⟨same, fun none => ?_, stops⟩
            rw [whole none]
          · rw [if_neg int]
            by_cases bool : info.type = BOOL
            · have other : info.type ≠ FLOAT := by
                rw [bool]
                decide
              rw [if_pos bool, wp_bind]
              apply wp_mono onward
              rintro output final ⟨same, whole, stops⟩
              rw [wp_pure]
              simp only [List.forall_mem_cons, List.exists_mem_cons_iff, other,
                ne_eq, not_false_eq_true, true_and, false_or,
                List.zipWith_cons_cons, shownField, if_neg int, if_pos bool]
              refine ⟨same, fun none => ?_, stops⟩
              rw [whole none]
            · have float : info.type = FLOAT := by
                have string : info.type ≠ STRING := here
                simp only [INT, BOOL, FLOAT, STRING] at *
                omega
              rw [if_neg bool, if_pos float, wp_pure]
              refine ⟨rfl, fun none => ?_, fun _ => rfl⟩
              exact absurd float (none info (List.mem_cons_self ..))
      | text block =>
          obtain ⟨string, ended⟩ := here
          have other : info.type ≠ FLOAT := by
            rw [string]
            decide
          unfold printFields
          dsimp only
          rw [wp_bind]
          apply wp_strlen ended
          rw [wp_bind]
          apply wp_mono onward
          rintro output final ⟨same, whole, stops⟩
          rw [wp_pure]
          simp only [List.forall_mem_cons, List.exists_mem_cons_iff, other,
            ne_eq, not_false_eq_true, true_and, false_or,
            List.zipWith_cons_cons, shownField]
          refine ⟨same, fun none => ?_, stops⟩
          rw [whole none]

/-- Without misuse only fields are printed. -/
theorem printFields_formats {output : Output}
    (runs : (printFields template fields).run world = .ok (output, final)) :
    ∀ line ∈ output.lines, FieldFormat line := by
  induction template generalizing fields output world final with
  | nil =>
      rw [printFields] at runs
      cases runs
      simp
  | cons info template ih =>
      cases fields with
      | nil => cases runs
      | cons field fields =>
          cases field with
          | word value =>
              unfold printFields at runs
              dsimp only at runs
              by_cases int : info.type = INT
              · rw [if_pos int] at runs
                obtain ⟨rest, middle, ran, runs⟩ := exists_of_run_bind runs
                cases runs
                exact List.forall_mem_cons.mpr ⟨Or.inl rfl, ih ran⟩
              · rw [if_neg int] at runs
                by_cases bool : info.type = BOOL
                · rw [if_pos bool] at runs
                  obtain ⟨rest, middle, ran, runs⟩ := exists_of_run_bind runs
                  cases runs
                  exact List.forall_mem_cons.mpr
                    ⟨Or.inr (Or.inl rfl), ih ran⟩
                · rw [if_neg bool] at runs
                  by_cases float : info.type = FLOAT
                  · rw [if_pos float] at runs
                    cases runs
                    intro line member
                    rw [List.mem_singleton] at member
                    subst member
                    exact Or.inr (Or.inr (Or.inl rfl))
                  · rw [if_neg float] at runs
                    cases runs
                    simp
          | text block =>
              unfold printFields at runs
              dsimp only at runs
              obtain ⟨_, _, -, runs⟩ := exists_of_run_bind runs
              obtain ⟨rest, middle, ran, runs⟩ := exists_of_run_bind runs
              cases runs
              exact List.forall_mem_cons.mpr
                ⟨Or.inr (Or.inr (Or.inr rfl)), ih ran⟩

end Printing

section Ids

variable {world final : World} {schema : TreeSchema} {fuel : Nat}
  {operand : CharPtr} {output : Output}

/-- The fields of a live id have the shapes that their types ask for. -/
theorem Searchable.shaped {file : List UInt8} {id offset : Nat}
    {record : KeyNode} (store : Searchable file schema)
    (live : LiveAt schema id offset) (here : RecordAt file schema offset record) :
    List.Forall₂ Shaped schema.nodesTemplate (fieldsOf file schema record) := by
  rw [List.forall₂_iff_get]
  have length : schema.types.length = schema.nodesTemplate.length :=
    List.length_map ..
  refine ⟨by rw [fieldsOf, List.length_map, List.length_range, length], ?_⟩
  intro position inside inside'
  have type : schema.types[position]? =
      some schema.nodesTemplate[position].type := by
    rw [TreeSchema.types, List.getElem?_map, List.getElem?_eq_getElem inside]
    rfl
  simp only [List.get_eq_getElem, fieldsOf, List.getElem_map,
    List.getElem_range, fieldAt, type, Option.some.injEq]
  by_cases string : schema.nodesTemplate[position].type = STRING
  · obtain ⟨chain, heads, ended⟩ := store.strings id offset record position
      live here (type.trans (congrArg some string))
    rw [if_pos string, heads.stringAt_eq]
    exact ⟨string, ended⟩
  · rw [if_neg string]
    exact string

/-- The search for a live id prints its fields up to the first FLOAT. -/
theorem Searchable.wp_retriveId {offset : Nat} {record : KeyNode}
    (store : Searchable world.file schema)
    (typed : Typed schema.nodesTemplate) (enough : world.file.length ≤ fuel)
    (live : LiveAt schema (atoiDigits operand) offset)
    (here : RecordAt world.file schema offset record) :
    wp (retriveId fuel operand) (fun output final =>
      final.file = world.file ∧
      (FLOAT ∉ schema.types →
        output = ⟨shownLines world.file schema record, none⟩) ∧
      (FLOAT ∈ schema.types → output.misuse ≠ none)) world := by
  rw [retriveId]
  generalize atoiDigits operand = id at live ⊢
  have counted : ¬ schema.treeMeta.curId < id := not_lt.mpr live.counted.le
  rw [wp_bind]
  apply SchemaAt.wp_readTreeSchema store.stored
  intro blocks
  have got := @Searchable.wp_getNode
    { world with pos := schema.arrayEnd, blocks := blocks } schema fuel id
    offset record store enough live here
  dsimp only
  rw [if_neg counted, wp_bind]
  apply wp_mono got
  rintro values middle ⟨same, rfl⟩
  dsimp only
  rw [if_neg (by simp)]
  apply wp_mono (wp_printFields typed (by exact store.shaped live here))
  rintro output final ⟨rfl, whole, stops⟩
  refine ⟨same, ?_, ?_⟩
  · intro none
    apply whole
    intro info member float
    exact none (List.mem_map.mpr ⟨info, member, float⟩)
  · intro float
    obtain ⟨info, member, type⟩ := List.mem_map.mp float
    rw [stops ⟨info, member, type⟩]
    exact Option.some_ne_none _

/-- `getNode` looks the id up in the array, and finds nothing where that holds
zero. -/
theorem SchemaAt.inside_of_getNode {id : Nat}
    {values : Option (List FieldValue)} (stored : SchemaAt world.file schema)
    (runs : (getNode fuel id).run world = .ok (values, final)) :
    ∃ offset, schema.root[id]? = some offset ∧
      (offset = 0 → values = none) := by
  rw [getNode] at runs
  obtain ⟨unset, middle, ran, runs⟩ := exists_of_run_bind runs
  have same : middle.file = world.file := by
    have kept : wp unsetWord (fun _ final => final.file = world.file) world :=
      wp_unsetWord fun _ _ => rfl
    have unchanged := wp_of_run kept ran
    exact unchanged
  obtain ⟨⟨status, offset⟩, later, converted, runs⟩ := exists_of_run_bind runs
  rw [convItoO] at converted
  obtain ⟨_, seeked, sought, converted⟩ := exists_of_run_bind converted
  cases sought
  obtain ⟨⟨schema', _⟩, read, loaded, converted⟩ :=
    exists_of_run_bind converted
  have whole : schema' = schema := by
    have known : wp readTreeSchema (fun result _ => result.1 = schema)
        { middle with pos := 0 } :=
      SchemaAt.wp_readTreeSchema (by rw [← same] at stored; exact stored)
        fun _ => rfl
    have read := wp_of_run known loaded
    exact read
  subst whole
  dsimp only at converted
  cases found : schema'.root[id]? with
  | none =>
      unfold index at converted
      rw [found] at converted
      cases converted
  | some entry =>
      refine ⟨entry, rfl, ?_⟩
      rintro rfl
      unfold index at converted
      rw [found, pure_bind, if_pos rfl] at converted
      cases converted
      cases runs
      rfl

/-- What `getNode` reads has a non-zero entry. -/
theorem SchemaAt.entry_of_getNode {id : Nat} {values : List FieldValue}
    (stored : SchemaAt world.file schema)
    (runs : (getNode fuel id).run world = .ok (some values, final)) :
    ∃ offset, schema.root[id]? = some offset ∧ offset ≠ 0 := by
  obtain ⟨offset, found, dead⟩ := stored.inside_of_getNode runs
  exact ⟨offset, found, fun zero => Option.some_ne_none _ (dead zero)⟩

/-- Without misuse the search for an id prints fields only. -/
theorem retriveId_formats
    (runs : (retriveId fuel operand).run world = .ok (output, final))
    (proper : output.misuse = none) :
    ∀ line ∈ output.lines, FieldFormat line := by
  rw [retriveId] at runs
  obtain ⟨⟨schema, _⟩, middle, -, runs⟩ := exists_of_run_bind runs
  obtain ⟨values, later, -, runs⟩ := exists_of_run_bind runs
  cases values with
  | none =>
      cases runs
      cases proper
  | some fields =>
      dsimp only at runs
      by_cases large : schema.treeMeta.curId < atoiDigits operand
      · rw [if_pos large, if_pos (List.cons_ne_nil _ _)] at runs
        cases runs
        cases proper
      · rw [if_neg large, if_neg (by simp)] at runs
        exact printFields_formats runs

/-- Without misuse the search for an id finds a non-zero entry, up to the
counter. -/
theorem SchemaAt.entry_of_retriveId (stored : SchemaAt world.file schema)
    (runs : (retriveId fuel operand).run world = .ok (output, final))
    (proper : output.misuse = none) :
    atoiDigits operand ≤ schema.treeMeta.curId ∧
      ∃ offset, schema.root[atoiDigits operand]? = some offset ∧
        offset ≠ 0 := by
  rw [retriveId] at runs
  obtain ⟨⟨schema', _⟩, middle, read, runs⟩ := exists_of_run_bind runs
  have known : schema' = schema ∧ middle.file = world.file := by
    have loads : wp readTreeSchema (fun result final =>
        result.1 = schema ∧ final.file = world.file) world :=
      SchemaAt.wp_readTreeSchema stored fun _ => ⟨rfl, rfl⟩
    have outcome := wp_of_run loads read
    exact outcome
  obtain ⟨rfl, same⟩ := known
  obtain ⟨values, later, got, runs⟩ := exists_of_run_bind runs
  cases values with
  | none =>
      cases runs
      cases proper
  | some fields =>
      dsimp only at runs
      by_cases large : schema'.treeMeta.curId < atoiDigits operand
      · rw [if_pos large, if_pos (List.cons_ne_nil _ _)] at runs
        cases runs
        cases proper
      · exact ⟨not_lt.mp large,
          SchemaAt.entry_of_getNode (by rw [same]; exact stored) got⟩

/-- The array of ids is in the file. -/
theorem SchemaAt.root_le {file : List UInt8} (stored : SchemaAt file schema) :
    8 * schema.root.length ≤ file.length := by
  have sized := schema.bytes_length
  have present := stored.here.length_le (by
    apply List.ne_nil_of_length_pos
    have header : 0 < metaSize := by decide
    omega)
  rw [sized] at present
  omega

theorem SchemaAt.curId_le {file : List UInt8} (stored : SchemaAt file schema) :
    8 * schema.treeMeta.curId ≤ file.length := by
  have entries := curId_le_getIdArraySize schema.treeMeta.templateSize
    schema.treeMeta.curId
  rw [← stored.valid.root_length] at entries
  have inside := stored.root_le
  omega

/-- The search for an id answers right exactly if the id that `atoi` reads shows
what the node should show. -/
theorem Searchable.retriveId_answers_iff {id : Nat}
    (store : Searchable world.file schema)
    (typed : Typed schema.nodesTemplate) (enough : world.file.length ≤ fuel)
    (apart : id < schema.treeMeta.curId →
      atoiDigits operand ≠ schema.treeMeta.curId) :
    wp (retriveId fuel operand) (fun output final =>
        final.file = world.file ∧ AnswersId world.file schema id output)
      world ↔ ShowsAs world.file schema id (atoiDigits operand) := by
  constructor
  · rintro ⟨output, final, runs, -, answers⟩
    by_cases here : ∃ offset, LiveAt schema id offset
    · obtain ⟨offset, live⟩ := here
      obtain ⟨record, here⟩ := store.complete id offset live
      obtain rfl := answers.live offset record live here
      obtain ⟨most, offset', found, nonzero⟩ :=
        store.stored.entry_of_retriveId runs rfl
      have counted := Nat.lt_of_le_of_ne most (apart live.counted)
      obtain ⟨record', here'⟩ :=
        store.complete _ offset' ⟨counted, found, nonzero⟩
      have printed := wp_of_run (store.wp_retriveId typed enough
        ⟨counted, found, nonzero⟩ here') runs
      obtain ⟨-, whole, stops⟩ := printed
      have none : FLOAT ∉ schema.types := fun float => stops float rfl
      exact ⟨none, offset, record, offset', record', live, here,
        ⟨counted, found, nonzero⟩, here',
        (Output.mk.inj (whole none)).1.symm⟩
    · obtain ⟨line, missing, rfl⟩ := answers.dead here
      have printed := retriveId_formats runs rfl line
        (List.mem_singleton_self line)
      exact absurd missing printed.not_notFound
  · rintro ⟨none, offset, record, offset', record', live, here, live', here',
      same⟩
    apply wp_mono (store.wp_retriveId typed enough live' here')
    rintro output final ⟨unchanged, whole, -⟩
    refine ⟨unchanged, ?_, ?_⟩
    · intro offset'' record'' live'' here''
      obtain rfl := live.unique live''
      obtain rfl := here.unique here''
      rw [whole none, same]
    · intro dead
      exact absurd ⟨offset, live⟩ dead

end Ids

section Children

variable {world : World} {schema : TreeSchema} {parent : Nat}

theorem foundLines_inj {found found' : List ResultSetNode}
    (same : foundLines found = foundLines found') :
    found.map (·.id) = found'.map (·.id) := by
  unfold foundLines at same
  by_cases none : found = []
  · by_cases none' : found' = []
    · rw [none, none']
    · rw [if_pos none, if_neg none'] at same
      exact absurd (congrArg Line.format (List.cons.inj same).1) (by decide)
  · by_cases none' : found' = []
    · rw [if_neg none, if_pos none'] at same
      exact absurd (congrArg Line.format (List.cons.inj same).1) (by decide)
    · rw [if_neg none, if_neg none'] at same
      have inject : Function.Injective fun id : Nat =>
          Line.mk "id: %lu\n" [.number id] := by
        intro id id' equal
        simpa using equal
      apply List.map_injective_iff.mpr inject
      rw [List.map_map, List.map_map]
      exact (List.cons.inj same).2

theorem Lists.nonempty_iff {file : List UInt8} {found : List ResultSetNode}
    (lists : Lists file schema
      (fun _ record => record.header.parentNode = parent) found) :
    found.map (·.id) ≠ [] ↔ HasChild file schema parent := by
  constructor
  · intro nonempty
    obtain ⟨id, member⟩ := List.exists_mem_of_ne_nil _ nonempty
    obtain ⟨offset, record, live, here, wanted⟩ := (lists.exact id).mp member
    exact ⟨id, offset, record, live, here, wanted⟩
  · rintro ⟨id, offset, record, live, here, wanted⟩
    exact List.ne_nil_of_mem
      ((lists.exact id).mpr ⟨offset, record, live, here, wanted⟩)

/-- The search for the children of node 0 answers for another node only where
both have none. -/
theorem Tuples.answersParent_iff (store : Tuples world.file schema) :
    wp (findByParent 0) (fun found final => final.file = world.file ∧
        AnswersParent world.file schema parent ⟨foundLines found, none⟩) world ↔
      parent = 0 ∨ ¬ HasChild world.file schema 0 ∧
        ¬ HasChild world.file schema parent := by
  apply wp_iff_of (store.wp_findByParent 0)
  rintro found final ⟨same, lists⟩
  rw [and_iff_right same]
  constructor
  · rintro ⟨found', lists', equal⟩
    have ids := foundLines_inj (Output.mk.inj equal).1
    by_cases none : found.map (·.id) = []
    · refine Or.inr ⟨?_, ?_⟩
      · rw [← lists.nonempty_iff]
        exact not_not_intro none
      · rw [← lists'.nonempty_iff, ← ids]
        exact not_not_intro none
    · obtain ⟨id, member⟩ := List.exists_mem_of_ne_nil _ none
      obtain ⟨offset, record, live, here, zero⟩ := (lists.exact id).mp member
      rw [ids] at member
      obtain ⟨offset', record', live', here', wanted⟩ :=
        (lists'.exact id).mp member
      obtain rfl := live.unique live'
      obtain rfl := here.unique here'
      exact Or.inl (wanted.symm.trans zero)
  · rintro (rfl | ⟨none, none'⟩)
    · exact ⟨found, lists, rfl⟩
    · refine ⟨found, lists.congr ?_, rfl⟩
      intro id offset record live here
      constructor
      · intro zero
        exact absurd ⟨id, offset, record, live, here, zero⟩ none
      · intro wanted
        exact absurd ⟨id, offset, record, live, here, wanted⟩ none'

end Children

section Command

variable {world : World} {schema : TreeSchema} {fuel : Nat}
  {strtod : CharPtr → UInt64} {command parameter operand : CharPtr}

theorem atoiDigits_parent (named : SameText parameter parentText) :
    atoiDigits parameter = 0 := by
  rw [atoiDigits, strtolDigits, named]
  decide

theorem resultLines_parent (named : SameText parameter parentText)
    (found : List ResultSetNode) :
    resultLines parameter found = foundLines found := by
  have other : ¬ SameText parameter idText := by
    rw [SameText, named]
    decide
  unfold resultLines foundLines
  by_cases none : found = []
  · rw [if_neg (not_not_intro none), if_pos other, if_pos none]
  · rw [if_pos none, if_neg none]

/-- The number of the operand plays no role in the search for children. -/
theorem storageRetriveNode_parent (named : SameText parameter parentText)
    (numeric : isNumeric operand = true) (template : List NodeAttributeInfo) :
    storageRetriveNode strtod fuel [command, parameter, operand] template 3 =
      (do
        let found ← findByParent 0
        return ⟨foundLines found, none⟩ : Prog Output) := by
  unfold storageRetriveNode
  rw [index_of_some (show [command, parameter, operand][1]? = some parameter
    from rfl), pure_bind, if_pos named, if_pos rfl,
    index_of_some (show [command, parameter, operand][2]? = some operand
    from rfl), pure_bind, if_pos numeric, atoiDigits_parent named]
  simp only [resultLines_parent named, List.nil_append]

theorem storageRetriveNode_id (named : SameText parameter idText)
    (numeric : isNumeric operand = true) (template : List NodeAttributeInfo) :
    storageRetriveNode strtod fuel [command, parameter, operand] template 3 =
      retriveId fuel operand := by
  have noParent : ¬ SameText parameter parentText := by
    rw [SameText, named]
    decide
  have noField : ¬ SameText parameter fieldText := by
    rw [SameText, named]
    decide
  unfold storageRetriveNode
  rw [index_of_some (show [command, parameter, operand][1]? = some parameter
    from rfl), pure_bind, if_neg noParent, if_neg noField, if_pos named,
    if_pos rfl, index_of_some (show [command, parameter, operand][2]? =
    some operand from rfl), pure_bind, if_pos numeric]

end Command

/-- The command answers for its operand exactly if: for a parent, it is the
node 0 or neither node has children; for an id, it is live, no attribute is a
FLOAT, and the node that `atoi` reads shows the same fields. -/
theorem retriveNode_answers_iff {world : World} {schema : TreeSchema}
    {fuel : Nat} {strtod : CharPtr → UInt64}
    {command parent id operand : CharPtr} {literal : List UInt8}
    (store : Searchable world.file schema)
    (typed : Typed schema.nodesTemplate) (enough : world.file.length ≤ fuel)
    (parentNamed : SameText parent parentText) (idNamed : SameText id idText)
    (text : textOf operand = literal) (numeral : Numeral literal) :
    (wp (storageRetriveNode strtod fuel [command, parent, operand]
        schema.nodesTemplate 3) (fun output final =>
          final.file = world.file ∧
          AnswersParent world.file schema (numeralValue literal) output)
      world ↔ numeralValue literal = 0 ∨ ¬ HasChild world.file schema 0 ∧
        ¬ HasChild world.file schema (numeralValue literal)) ∧
    (wp (storageRetriveNode strtod fuel [command, id, operand]
        schema.nodesTemplate 3) (fun output final =>
          final.file = world.file ∧
          AnswersId world.file schema (numeralValue literal) output)
      world ↔ ShowsAs world.file schema (numeralValue literal)
        (atoiDigits operand)) := by
  have numeric := isNumeric_of_digits text numeral.digits
  constructor
  · rw [storageRetriveNode_parent parentNamed numeric, wp_bind]
    simp only [wp_pure]
    exact store.answersParent_iff
  · rw [storageRetriveNode_id idNamed numeric]
    apply store.retriveId_answers_iff typed enough
    intro counted last
    have present := store.stored.curId_le
    have small := store.small
    have fits : numeralValue literal < 2 ^ 63 := by omega
    rw [atoiDigits, strtolDigits_numeral text numeral fits,
      signExtended_toNat] at last
    split_ifs at last <;> omega

/-- In an empty store the search for the id 0 goes on with a freed schema. -/
theorem not_always_answersId :
    ¬ ∀ (world : World) (schema : TreeSchema) (fuel : Nat)
      (strtod : CharPtr → UInt64) (command id operand : CharPtr)
      (literal : List UInt8), Searchable world.file schema →
      Typed schema.nodesTemplate → world.file.length ≤ fuel →
      SameText id idText → textOf operand = literal → Numeral literal →
      wp (storageRetriveNode strtod fuel [command, id, operand]
        schema.nodesTemplate 3) (fun output final =>
          final.file = world.file ∧
          AnswersId world.file schema (numeralValue literal) output) world := by
  intro always
  have store := searchable_single
  have typed : Typed (singleSchema INT).nodesTemplate := by
    intro info member
    obtain rfl := List.mem_singleton.mp member
    exact Nat.zero_le _
  have empty : (singleSchema INT).treeMeta.curId = 0 := rfl
  generalize singleSchema INT = schema at store typed empty
  have answers := always (blankWorld schema.bytes) schema schema.bytes.length
    (fun _ => 0) [] idText [48] [48] store typed le_rfl rfl (by decide)
    (by decide)
  rw [storageRetriveNode_id rfl (by decide)] at answers
  obtain ⟨-, offset, record, -, -, live, -⟩ :=
    (@Searchable.retriveId_answers_iff (blankWorld schema.bytes) schema
      schema.bytes.length [48] 0 store typed le_rfl (by omega)).mp answers
  have counted := live.counted
  omega

/-- The only node has the id 0 and the parent 7. -/
theorem retriveNode_answers_iff_seven :
    (wp (storageRetriveNode (fun _ => 0) oneSeven.length
        [[], parentText, [48]] (schemaOf oneSeven).nodesTemplate 3)
        (fun output final => final.file = oneSeven ∧
          AnswersParent oneSeven (schemaOf oneSeven) (numeralValue [48])
            output) (blankWorld oneSeven) ↔
      numeralValue [48] = 0 ∨ ¬ HasChild oneSeven (schemaOf oneSeven) 0 ∧
        ¬ HasChild oneSeven (schemaOf oneSeven) (numeralValue [48])) ∧
    (wp (storageRetriveNode (fun _ => 0) oneSeven.length
        [[], idText, [48]] (schemaOf oneSeven).nodesTemplate 3)
        (fun output final => final.file = oneSeven ∧
          AnswersId oneSeven (schemaOf oneSeven) (numeralValue [48]) output)
        (blankWorld oneSeven) ↔
      ShowsAs oneSeven (schemaOf oneSeven) (numeralValue [48])
        (atoiDigits [48])) := by
  obtain ⟨-, -, -, -, template⟩ := oneSeven_stored
  have store := oneSeven_searchable
  generalize oneSeven = file at template store ⊢
  have typed : Typed (schemaOf file).nodesTemplate := by
    rw [template]
    intro info member
    obtain rfl := List.mem_singleton.mp member
    exact Nat.zero_le _
  exact @retriveNode_answers_iff (blankWorld file) (schemaOf file) file.length
    (fun _ => 0) [] parentText idText [48] [48] store typed le_rfl rfl rfl
    (by decide) (by decide)

end TreeStore
