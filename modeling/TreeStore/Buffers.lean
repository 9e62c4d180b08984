import TreeStore.Constraints
import TreeStore.FilterScans
import TreeStore.Handler

/-!
# Blocks of a fixed size

Which queries fit into the arrays of a message, and which messages and nodes
into the blocks of the handler: a line of a response has at most 255
characters, and a string that is copied for an update at most 63.
-/

namespace TreeStore

open ByteFile ProgramLogic

/-- The query fits into the arrays of a message. -/
structure Client.Mongosh.Fitting (mongosh : Mongosh) : Prop where
  filters_le : mongosh.filters.length ≤ 20
  settings_le : mongosh.settings.length ≤ 20
  kept : ∀ filter ∈ mongosh.filters, ∀ constraint ∈ filter.kept,
    constraint.Short
  settings : ∀ setting ∈ mongosh.settings,
    (Constraint.mk (textOf setting.1) 0 setting.2.literal).Short

/-- The strings that an update copies: those of the STRING attributes that are
set, up to the first setting that is refused or leaves an array. -/
def copiedStrings (template : List NodeAttributeInfo) :
    List KeyValuePair → List CharPtr
  | [] => []
  | kv :: settings =>
      match settingStep template kv with
      | .write _ .address =>
          kv.valueString :: copiedStrings template settings
      | .write _ _ => copiedStrings template settings
      | _ => []

/-- The text that is shown for a word of a node. -/
def Shown (file : List UInt8) (schema : TreeSchema) (type word : Nat)
    (text : List UInt8) : Prop :=
  if type = STRING then
    ∃ chain, ForwardChain file schema word chain ∧
      text = textOf (assemble schema.realSize chain)
  else if type = INT ∨ type = BOOL then text = decimalText word
  else type = FLOAT ∧ text = doubleText (.ofNat word)

/-- The line of an attribute fits: its name, filled up to 20 characters, and
its text. -/
def LineFits (file : List UInt8) (schema : TreeSchema)
    (info : NodeAttributeInfo) (word : Nat) : Prop :=
  ∀ text, Shown file schema info.type word text →
    max 20 (textOf info.attributeName).length + text.length ≤ 253

/-- What the message asks for fits, for a node with this record. -/
structure Query.NodeFits (query : Query) (file : List UInt8)
    (schema : TreeSchema) (record : KeyNode) : Prop where
  lines : query.command = 0 → ∀ position info,
    schema.nodesTemplate[position]? = some info →
      LineFits file schema info (record.word position)
  copies : query.command = 3 →
    ∀ str ∈ copiedStrings schema.nodesTemplate query.settingsList,
      (textOf str).length < 64

/-- The search of the message delivers the node. -/
def Query.Delivers (query : Query) (file : List UInt8)
    (template : List NodeAttributeInfo) (node : FoundNode) : Prop :=
  ∃ (world : World) (fuel code : Nat) (result : List FoundNode)
    (final : World), world.file = file ∧
    (storageFindNodeByFilters fuel query.filtersList template).run world =
      .ok ((code, result), final) ∧ node ∈ result

/-- Nothing that the handler does with the node depends on what happens when a
block is too small. -/
def Query.StaysWithin (query : Query) (file : List UInt8)
    (schema : TreeSchema) (node : FoundNode) : Prop :=
  ∀ world fuel stack response, world.file = file → file.length ≤ fuel →
    Defined (fun overflow => query.visit overflow fuel stack
      schema.treeMeta.templateSize schema.nodesTemplate node response) world

section Texts

theorem decimalText_length_le {number : Nat} (small : number < 2 ^ 64) :
    (decimalText number).length ≤ 20 := by
  rw [decimalText, List.length_map, Nat.length_toDigits_le_iff (by decide)
    (by decide)]
  omega

theorem leftText_length (width : Nat) (text : List UInt8) :
    (leftText width text).length = max width text.length := by
  rw [leftText, List.length_append, List.length_replicate]
  omega

theorem rightText_length (width : Nat) (fill : UInt8) (text : List UInt8) :
    (rightText width fill text).length = max width text.length := by
  rw [rightText, List.length_append, List.length_replicate]
  omega

theorem fieldLine_fits {name : CharPtr} {text : List UInt8} :
    (fieldLine name text).length < 256 ↔
      max 20 (textOf name).length + text.length ≤ 253 := by
  have blank : (chars " ").length = 1 := rfl
  have newline : (chars "\n").length = 1 := rfl
  rw [fieldLine, List.length_append, List.length_append, List.length_append,
    leftText_length, blank, newline]
  omega

/-- A line with a number fits. -/
theorem numberLine_fits {title : List UInt8} {number : Nat}
    (short : title.length ≤ 200) (small : number < 2 ^ 64) :
    (title ++ decimalText number ++ chars "\n").length < 256 := by
  have digits := decimalText_length_le small
  have newline : (chars "\n").length = 1 := rfl
  rw [List.length_append, List.length_append, newline]
  omega

end Texts

section Lines

variable {world : World} {schema : TreeSchema} {fuel iter : Nat}
  {record value : KeyNode} {info : NodeAttributeInfo}

theorem shown_unique {file : List UInt8} {type word : Nat}
    {text text' : List UInt8} (shown : Shown file schema type word text)
    (shown' : Shown file schema type word text') : text = text' := by
  unfold Shown at shown shown'
  split_ifs at shown shown'
  · obtain ⟨chain, heads, rfl⟩ := shown
    obtain ⟨chain', heads', rfl⟩ := shown'
    rw [heads.unique heads']
  · exact shown.trans shown'.symm
  · exact shown.2.trans shown'.2.symm

/-- A number fits behind a name of up to 233 characters. -/
theorem lineFits_number {file : List UInt8} {word : Nat}
    (number : info.type = INT ∨ info.type = BOOL) (small : word < 2 ^ 64)
    (short : (textOf info.attributeName).length ≤ 233) :
    LineFits file schema info word := by
  intro text shown
  have other : info.type ≠ STRING := by
    rcases number with int | bool
    · rw [int]
      decide
    · rw [bool]
      decide
  rw [Shown, if_neg other, if_pos number] at shown
  subst shown
  have digits := decimalText_length_le small
  omega

/-- The strings that a node of the store shows are terminated. -/
def ShowsStrings (file : List UInt8) (schema : TreeSchema)
    (record : KeyNode) : Prop :=
  ∀ position, schema.types[position]? = some STRING →
    ∃ chain, ForwardChain file schema (record.word position) chain ∧
      0 ∈ assemble schema.realSize chain

/-- What is printed for a field of a record. -/
theorem wp_shownText (stored : SchemaAt world.file schema)
    (small : world.file.length < 2 ^ 63)
    (strings : ShowsStrings world.file schema record)
    (enough : world.file.length ≤ fuel)
    (started : value.data.take schema.realSize = record.data)
    (typed : schema.nodesTemplate[iter]? = some info) :
    wp (shownText fuel schema.treeMeta.templateSize false (some value) iter
      info.type) (fun shown final => final.file = world.file ∧
        ∀ text, shown = some text ↔
          Shown world.file schema info.type (record.word iter) text)
      world := by
  have typed' : schema.types[iter]? = some info.type := by
    rw [TreeSchema.types, List.getElem?_map, typed]
    rfl
  have inside := stored.word_inside (List.getElem?_eq_some_iff.mp typed').1
  have word : value.word iter = record.word iter :=
    Image.word_of_take started inside
  unfold shownText
  by_cases string : info.type = STRING
  · rw [if_pos string]
    obtain ⟨chain, heads, ended⟩ := strings iter (string ▸ typed')
    rw [deref, pure_bind, if_neg Bool.false_ne_true, word, wp_bind]
    apply heads.wp_readStringFromNode small (heads.length_le.trans enough) rfl
    intro pos blocks
    rw [wp_bind]
    apply wp_strlen ended
    rw [wp_pure]
    refine ⟨rfl, fun text => ?_⟩
    rw [Shown, if_pos string]
    constructor
    · rintro ⟨⟩
      exact ⟨chain, heads, rfl⟩
    · rintro ⟨chain', heads', rfl⟩
      rw [heads.unique heads']
  · rw [if_neg string]
    by_cases number : info.type = INT ∨ info.type = BOOL
    · rw [if_pos number, deref, pure_bind, wp_pure, word]
      refine ⟨rfl, fun text => ?_⟩
      rw [Shown, if_neg string, if_pos number, Option.some_inj, eq_comm]
    · rw [if_neg number]
      by_cases float : info.type = FLOAT
      · rw [if_pos float, deref, pure_bind, wp_pure, word]
        refine ⟨rfl, fun text => ?_⟩
        rw [Shown, if_neg string, if_neg number, Option.some_inj, eq_comm,
          and_iff_right float]
      · rw [if_neg float, wp_pure]
        refine ⟨rfl, fun text => ?_⟩
        rw [Shown, if_neg string, if_neg number]
        simp [float]

/-- What is left of a list at some index begins with its element there. -/
theorem getElem?_of_drop_eq_cons {α : Type} {list rest : List α} {first : α}
    {index : Nat} (left : list.drop index = first :: rest) :
    list[index]? = some first ∧ list.drop (index + 1) = rest := by
  constructor
  · have head : (list.drop index)[0]? = some first := by
      rw [left]
      rfl
    rwa [List.getElem?_drop, Nat.add_zero] at head
  · rw [← List.tail_drop, left]
    rfl

/-- The lines of the attributes from this one on. -/
theorem receiveFields_defined_iff {rest : List NodeAttributeInfo}
    {response : List UInt8} (stored : SchemaAt world.file schema)
    (small : world.file.length < 2 ^ 63)
    (strings : ShowsStrings world.file schema record)
    (enough : world.file.length ≤ fuel)
    (started : value.data.take schema.realSize = record.data)
    (left : schema.nodesTemplate.drop iter = rest) :
    Defined (fun overflow => receiveFields overflow fuel
      schema.treeMeta.templateSize false (some value) iter rest response)
        world ↔
      ∀ position info, iter ≤ position →
        schema.nodesTemplate[position]? = some info →
          LineFits world.file schema info (record.word position) := by
  induction rest generalizing iter world response with
  | nil =>
      have none : ∀ position, iter ≤ position →
          schema.nodesTemplate[position]? = none := by
        intro position behind
        apply List.getElem?_eq_none
        have := List.drop_eq_nil_iff.mp left
        omega
      constructor
      · intro defined position info behind found
        rw [none position behind] at found
        cases found
      · exact fun _ => defined_const _
  | cons info rest ih =>
      obtain ⟨typed, left'⟩ := getElem?_of_drop_eq_cons left
      have split : (∀ position info, iter ≤ position →
          schema.nodesTemplate[position]? = some info →
            LineFits world.file schema info (record.word position)) ↔
          LineFits world.file schema info (record.word iter) ∧
            ∀ position info, iter + 1 ≤ position →
              schema.nodesTemplate[position]? = some info →
                LineFits world.file schema info (record.word position) := by
        constructor
        · intro all
          exact ⟨all iter info le_rfl typed,
            fun position info behind => all position info (by omega)⟩
        · rintro ⟨here, later⟩ position info' behind found
          rcases Nat.eq_or_lt_of_le behind with rfl | after
          · rw [typed] at found
            cases found
            exact here
          · exact later position info' after found
      rw [split]
      apply defined_const_bind_iff
        (wp_shownText stored small strings enough started typed)
      rintro shown middle ⟨same, shows⟩
      have onward := fun response => @ih middle (iter + 1) response
        (by rw [same]; exact stored) (by rw [same]; exact small)
        (by rw [same]; exact strings) (by rw [same]; exact enough) left'
      rw [same] at onward
      cases shown with
      | none =>
          have nothing : LineFits world.file schema info
              (record.word iter) := by
            intro text shown
            cases (shows text).mpr shown
          rw [and_iff_right nothing]
          exact onward response
      | some text =>
          have fits : LineFits world.file schema info (record.word iter) ↔
              (fieldLine info.attributeName text).length < 256 := by
            rw [fieldLine_fits]
            constructor
            · exact fun all => all text ((shows text).mp rfl)
            · intro short other shown
              rw [shown_unique shown ((shows text).mp rfl)]
              exact short
          rw [fits, ← onward (response ++ fieldLine info.attributeName text)]
          exact defined_requires_bind

theorem receiveNode_defined_iff {node : FoundNode} {response : List UInt8}
    (stored : SchemaAt world.file schema)
    (small : world.file.length < 2 ^ 63)
    (strings : ShowsStrings world.file schema record)
    (enough : world.file.length ≤ fuel)
    (delivered : node.HasRecord schema record) (named : node.id < 2 ^ 64) :
    Defined (fun overflow => receiveNode overflow fuel
      schema.treeMeta.templateSize schema.nodesTemplate false node response)
        world ↔
      ∀ position info, schema.nodesTemplate[position]? = some info →
        LineFits world.file schema info (record.word position) := by
  obtain ⟨value, given, -, started⟩ := delivered
  have title : (chars "<---- Node " ++
      rightText 3 32 (decimalText node.id) ++ chars "---->\n").length < 256 := by
    have first : (chars "<---- Node ").length = 11 := rfl
    have last : (chars "---->\n").length = 6 := rfl
    have digits := decimalText_length_le named
    rw [List.length_append, List.length_append, rightText_length, first, last]
    omega
  have fields := @receiveFields_defined_iff world schema fuel 0 record value
    schema.nodesTemplate (response ++ (chars "<---- Node " ++
      rightText 3 32 (decimalText node.id) ++ chars "---->\n")) stored small
    strings enough started List.drop_zero
  simp only [Nat.zero_le, true_imp_iff] at fields
  rw [← fields, ← given]
  exact defined_requires_bind.trans (and_iff_right title)

end Lines

section Copies

variable {overflow : Prog Unit} {fuel stack id value : Nat}
  {template : List NodeAttributeInfo} {kv : KeyValuePair}
  {settings : List KeyValuePair}

/-- A setting is a step, before which its string is copied. -/
theorem copySettings_cons :
    copySettings overflow fuel stack template id value (kv :: settings) =
      (match settingStep template kv with
      | .refuse code => return code
      | .crash fault => throw fault
      | .write position source => do
          requires overflow (source = .address →
            (textOf kv.valueString).length < 64)
          let value ← source.load value
          updateWord fuel stack position value id
          copySettings overflow fuel stack template id value settings) := by
  rw [copySettings, settingStep]
  rcases findAttr kv.key template with _ | iter
  · rfl
  dsimp only
  by_cases unknown : (Int8.ofNat iter).toInt = -1
  · rw [if_pos unknown, if_pos unknown]
  rw [if_neg unknown, if_neg unknown]
  by_cases negative : (Int8.ofNat iter).toInt < 0
  · rw [if_pos negative, if_pos negative]
  rw [if_neg negative, if_neg negative]
  cases found : (template.map (·.type))[(Int8.ofNat iter).toInt.toNat]? with
  | none =>
      rw [index_of_none found]
      rfl
  | some type =>
      rw [index_of_some found, pure_bind]
      dsimp only
      cases accepted : updateValue kv type with
      | none => rfl
      | some source =>
          dsimp only
          by_cases address : source = .address
          · have copied : requires overflow (source = .address →
                (textOf kv.valueString).length < 64) =
                copyString overflow kv.valueString := by
              simp only [requires, copyString, address, forall_const]
            rw [if_pos address, copied]
          · have skipped : requires overflow (source = .address →
                (textOf kv.valueString).length < 64) = pure () :=
              if_pos fun same => absurd same address
            rw [if_neg address, skipped, pure_bind]

/-- With room for everything the copies change nothing. -/
theorem copySettings_pure : copySettings (pure ()) fuel stack template id value
    settings = updateSettings fuel stack id template value settings := by
  induction settings generalizing value with
  | nil => rfl
  | cons kv settings ih =>
      unfold copySettings updateSettings
      cases findAttr kv.key template with
      | none => rfl
      | some iter =>
          dsimp only
          split_ifs
          · rfl
          · rfl
          · apply congrArg (index (template.map (·.type)) _ >>= ·)
            funext type
            cases updateValue kv type with
            | none => rfl
            | some source =>
                simp only [copyString, requires_pure, ite_self, pure_bind, ih]

theorem copyingUpdate_pure :
    copyingUpdate (pure ()) fuel stack template id settings =
      storageUpdateNodeNew fuel stack id settings template := by
  rw [copyingUpdate, storageUpdateNodeNew]
  simp only [copySettings_pure]

theorem settingStep_code {code : Nat}
    (refused : settingStep template kv = .refuse code) : code ≤ 4 := by
  unfold settingStep at refused
  dsimp only at refused
  split_ifs at refused
  · cases refused
    decide
  · split at refused
    · cases refused
    · split at refused <;> cases refused
      decide

theorem storageUpdateNodeNew_code {world final : World} {code : Nat}
    (runs : (storageUpdateNodeNew fuel stack id settings template).run world =
      .ok (code, final)) : code ≤ 4 := by
  rw [storageUpdateNodeNew_eq] at runs
  obtain ⟨result, rfl, ends, -⟩ := runUpdate_ending runs
  cases result with
  | none => exact Nat.zero_le _
  | some code =>
      have refused := refusal_mem (refusal_of_ending ends).symm
      obtain ⟨kv, -, step⟩ := List.mem_map.mp refused
      exact settingStep_code step

section Conditions

variable {short : CharPtr → Prop} {position : Nat} {source : ValueSource}

theorem copiedStrings_of_write
    (step : settingStep template kv = .write position source) :
    (∀ str ∈ copiedStrings template (kv :: settings), short str) ↔
      (source = .address → short kv.valueString) ∧
        ∀ str ∈ copiedStrings template settings, short str := by
  rw [copiedStrings, step]
  cases source with
  | number word => simp
  | address => simp
  | keep => simp

end Conditions

theorem copySettings_defined {world : World}
    (short : ∀ str ∈ copiedStrings template settings, (textOf str).length < 64) :
    Defined (fun overflow => copySettings overflow fuel stack template id value
      settings) world := by
  induction settings generalizing value world with
  | nil => exact defined_const _
  | cons kv settings ih =>
      rw [defined_congr fun _ => copySettings_cons]
      cases step : settingStep template kv with
      | refuse code => exact defined_const _
      | crash fault => exact defined_const _
      | write position source =>
          obtain ⟨here, later⟩ := (copiedStrings_of_write step).mp short
          apply defined_requires_bind.mpr ⟨here, _⟩
          apply defined_const_bind.mpr
          intro loaded middle _
          apply defined_const_bind.mpr
          intro _ final _
          exact ih later

theorem copyingUpdate_defined {world : World}
    (short : ∀ str ∈ copiedStrings template settings, (textOf str).length < 64) :
    Defined (fun overflow => copyingUpdate overflow fuel stack template id
      settings) world := by
  apply defined_const_bind.mpr
  intro value middle _
  exact copySettings_defined short

/-- In uniform memory the first setting that is too long is reached, whatever
comes after the update. -/
theorem LiveNode.copies_of_defined {α : Type} {img : Image} {node : NodeImage}
    {world : World} {char : UInt8} {known : Option Nat}
    {next : Prog Unit → Nat → Prog α}
    (live : LiveNode img id node world.file)
    (heap : world.heap = uniformHeap img.realSize char) (visible : char ≠ 0)
    (enough : img.top ≤ fuel) (types : template.map (·.type) = img.types)
    (small : value < 2 ^ 64) (holds : value = known.getD (uniformWord char))
    (defined : Defined (fun overflow => copySettings overflow fuel img.realSize
      template id value settings >>= next overflow) world) :
    ∀ str ∈ copiedStrings template settings, (textOf str).length < 64 := by
  induction settings generalizing img node world value known with
  | nil => exact fun str member => absurd member List.not_mem_nil
  | cons kv settings ih =>
      rw [defined_congr fun _ => congrArg (· >>= _) copySettings_cons]
        at defined
      have fits := @settingStep_fits template kv
      cases step : settingStep template kv with
      | refuse code =>
          rw [copiedStrings, step]
          exact fun str member => absurd member List.not_mem_nil
      | crash fault =>
          rw [copiedStrings, step]
          exact fun str member => absurd member List.not_mem_nil
      | write position source =>
          rw [step] at defined fits
          obtain ⟨sourceSmall, type, typed, address⟩ := fits
          rw [types] at typed
          simp only [bind_assoc] at defined
          obtain ⟨here, onward⟩ := defined_requires_bind.mp defined
          have writes : wp (do
              let value ← source.load value
              updateWord fuel img.realSize position value id
              return some value) (fun loaded final => ∃ loaded' recs node',
                loaded = some loaded' ∧ loaded' < 2 ^ 64 ∧
                loaded' = (source.known known).getD (uniformWord char) ∧
                LiveNode { img with recs := recs } id node' final.file ∧
                final.heap = world.heap) world := by
            apply live.wp_write_uniform heap visible enough typed address
              sourceSmall small holds
            intro loaded recs file pos blocks field' loadedSmall loadedHolds _
              live'
            rw [wp_pure]
            exact ⟨loaded, recs, _, rfl, loadedSmall, loadedHolds, live', rfl⟩
          obtain ⟨_, final, runs, loaded, recs, node', rfl, loadedSmall,
            loadedHolds, live', heap'⟩ := writes
          obtain ⟨loaded', middle, loads, runs⟩ := exists_of_run_bind runs
          obtain ⟨_, final', updates, runs⟩ := exists_of_run_bind runs
          cases runs
          apply (@copiedStrings_of_write template kv settings
            (fun str => (textOf str).length < 64) position source step).mpr
          refine ⟨here, ?_⟩
          apply ih live' (heap'.trans heap) enough types loadedSmall loadedHolds
          exact defined_const_bind.mp
            (defined_const_bind.mp onward loaded middle loads) () final updates

end Copies

section Visits

variable {file : List UInt8} {schema : TreeSchema} {query : Query}
  {node : FoundNode} {record : KeyNode} {offset : Nat}

/-- A search for an id delivers no node of the store. -/
theorem Query.Delivers.not_byId {template : List NodeAttributeInfo}
    (delivers : query.Delivers file template node)
    (has : node.HasRecord schema record) : query.byId = false := by
  by_contra named
  obtain ⟨comparator, count, filt, key⟩ : ∃ comparator count,
      query.filtersList = [⟨[comparator], count⟩] ∧
        SameText comparator.kv.key idText := by
    unfold Query.byId at named
    split at named
    · next comparator count filt =>
        exact ⟨comparator, count, filt, by simpa using named⟩
    · exact absurd rfl named
  have other : ¬ SameText comparator.kv.key parentText := by
    rw [SameText, key]
    decide
  obtain ⟨world, fuel, code, result, final, -, runs, member⟩ := delivers
  obtain ⟨value, given, -⟩ := has
  rw [filt, storageFindNodeByFilters] at runs
  obtain ⟨_, _, -, runs⟩ := exists_of_run_bind runs
  obtain ⟨_, _, -, runs⟩ := exists_of_run_bind runs
  dsimp only at runs
  rw [if_neg other, if_pos key] at runs
  obtain ⟨found, _, found', runs⟩ := exists_of_run_bind runs
  cases runs
  rw [findById] at found'
  obtain ⟨values, _, -, found'⟩ := exists_of_run_bind found'
  cases values with
  | some values => cases found'
  | none =>
      obtain ⟨fields, _, -, found'⟩ := exists_of_run_bind found'
      by_cases null : fields = 0
      · rw [if_pos null] at found'
        cases found'
        rw [List.mem_singleton.mp member] at given
        cases given
      · rw [if_neg null] at found'
        cases found'

theorem updateFound_defined {world : World} {fuel stack : Nat}
    {template : List NodeAttributeInfo} {settings : List KeyValuePair}
    {response : List UInt8} (named : node.id < 2 ^ 64)
    (short : ∀ str ∈ copiedStrings template settings, (textOf str).length < 64) :
    Defined (fun overflow => updateFound overflow fuel stack template settings
      node response) world := by
  apply (copyingUpdate_defined short).bind
  intro errorCode middle runs
  rw [copyingUpdate_pure] at runs
  have small := storageUpdateNodeNew_code runs
  have error : (chars "Error code: " ++ decimalText errorCode ++
      chars "\n").length < 256 := numberLine_fits (by decide) (by omega)
  have updated : (chars "Updated id: " ++ decimalText node.id ++
      chars "\n").length < 256 := numberLine_fits (by decide) named
  dsimp only
  by_cases failed : errorCode ≠ 0
  · simp only [if_pos failed]
    exact defined_requires_bind.mpr
      ⟨error, defined_requires_bind.mpr ⟨updated, defined_const _⟩⟩
  · simp only [if_neg failed]
    exact defined_requires_bind.mpr ⟨updated, defined_const _⟩

theorem LiveNode.copies_of_updateFound {img : Image} {image : NodeImage}
    {settings : List KeyValuePair} {template : List NodeAttributeInfo}
    {response : List UInt8}
    (live : LiveNode img node.id image file)
    (types : template.map (·.type) = img.types)
    (defined : Defined (fun overflow => updateFound overflow file.length
      img.realSize template settings node response)
        ⟨file, 0, uniformHeap img.realSize 1, 0⟩) :
    ∀ str ∈ copiedStrings template settings, (textOf str).length < 64 := by
  have loadedEq : leValue ((List.range 8).map
      (uniformHeap img.realSize 1 0)) = uniformWord 1 := by
    have := getRealNodeSize_ge img.templateSize
    rw [uniform_block (by simp only [Image.realSize]; omega)]
    rfl
  unfold updateFound copyingUpdate at defined
  simp only [bind_assoc] at defined
  have onward := defined_const_bind.mp defined (uniformWord 1)
    ⟨file, 0, uniformHeap img.realSize 1, 1⟩ (by rw [← loadedEq]; rfl)
  exact LiveNode.copies_of_defined (by exact live) rfl (by decide)
    live.holds.top_le_length types (uniformWord_lt 1) Option.getD_none.symm
      onward

theorem removeFound_defined {world : World} {fuel : Nat}
    {response : List UInt8} (named : node.id < 2 ^ 64) :
    Defined (fun overflow => removeFound overflow fuel node response)
      world := by
  apply defined_const_bind.mpr
  intro status middle _
  have line : (chars "id: " ++ decimalText node.id ++
      chars "\n").length < 256 := numberLine_fits (by decide) named
  exact defined_requires_bind.mpr ⟨line, defined_const _⟩

/-- What the handler does with a node stays within its blocks exactly if what
the message asks for fits. -/
theorem staysWithin_iff (sound : Sound file) (store : Searchable file schema)
    (live : LiveAt schema node.id offset)
    (here : RecordAt file schema offset record)
    (has : node.HasRecord schema record)
    (delivers : query.Delivers file schema.nodesTemplate node) :
    query.StaysWithin file schema node ↔ query.NodeFits file schema record := by
  have plain := delivers.not_byId has
  have named : node.id < 2 ^ 64 := by
    have inside := (List.getElem?_eq_some_iff.mp live.entry).1
    have := store.stored.root_le
    have := store.small
    omega
  have strings : ShowsStrings file schema record :=
    fun position => store.strings node.id offset record position live here
  constructor
  · intro stays
    constructor
    · intro receives
      have defined := stays (blankWorld file) file.length 0 [] rfl le_rfl
      unfold Query.visit at defined
      simp only [if_pos receives, plain] at defined
      exact (receiveNode_defined_iff (by exact store.stored)
        (by exact store.small) (by exact strings) le_rfl has named).mp defined
    · intro updates
      obtain ⟨img, image, rfl, liveNode, -⟩ :=
        sound.exists_liveNode store.stored live
      have defined := stays ⟨file, 0, uniformHeap img.realSize 1, 0⟩
        file.length img.realSize [] rfl le_rfl
      unfold Query.visit at defined
      have other : ¬ query.command = 0 := by
        rw [updates]
        decide
      have other' : ¬ query.command = 1 := by
        rw [updates]
        decide
      simp only [if_neg other, if_neg other', if_pos updates] at defined
      exact liveNode.copies_of_updateFound rfl defined
  · rintro fits world fuel stack response rfl enough
    unfold Query.visit
    by_cases receives : query.command = 0
    · simp only [if_pos receives, plain]
      exact (receiveNode_defined_iff store.stored store.small strings enough
        has named).mpr (fits.lines receives)
    · simp only [if_neg receives]
      by_cases removes : query.command = 1
      · simp only [if_pos removes]
        exact removeFound_defined named
      · simp only [if_neg removes]
        by_cases updates : query.command = 3
        · simp only [if_pos updates]
          exact updateFound_defined named (fits.copies updates)
        · simp only [if_neg updates]
          exact defined_const _

end Visits

/-- A query gets into a message exactly if it fits into the arrays, and the
handler stays within its blocks exactly if what it copies and prints for a node
fits. -/
theorem buffers_iff {mongosh : Client.Mongosh} {state : Client.State}
    {file : List UInt8} {schema : TreeSchema} {message : Query}
    {node : FoundNode} {record : KeyNode} {offset : Nat}
    (some_filter : mongosh.filters ≠ []) (fresh : state.Fresh)
    (sound : Sound file) (store : Searchable file schema)
    (live : LiveAt schema node.id offset)
    (here : RecordAt file schema offset record)
    (has : node.HasRecord schema record)
    (delivers : message.Delivers file schema.nodesTemplate node) :
    ((∃ query, (mongosh.read state).bind Client.parseQuery = some query) ↔
      mongosh.Fitting) ∧
    (message.StaysWithin file schema node ↔
      message.NodeFits file schema record) := by
  constructor
  · rw [Client.exists_sent_iff some_filter fresh]
    constructor
    · rintro ⟨few, few', kept, settings⟩
      exact ⟨few, few', kept, settings⟩
    · rintro ⟨few, few', kept, settings⟩
      exact ⟨few, few', kept, settings⟩
  · exact staysWithin_iff sound store live here has delivers

/-- The message that `parent: 7` is received by. -/
def childrenOfSeven : Query where
  command := 0
  filtersList := [⟨[⟨0, ⟨parentText ++ [0], 1, 7, 0, [0]⟩⟩], by decide⟩]
  settingsList := []
  filtersList_le := by decide
  settingsList_le := by decide

/-- The query `n: 1` gets into a message, and the line of the only node of
`oneSeven` fits. -/
theorem buffers_seven :
    (∃ query, ((Client.Mongosh.receive [Client.isOne 110]).read .start).bind
      Client.parseQuery = some query) ∧
    ∃ node, node.id = 0 ∧
      childrenOfSeven.StaysWithin oneSeven (schemaOf oneSeven) node := by
  obtain ⟨sound, stored, live, here, template⟩ := oneSeven_stored
  have store := oneSeven_searchable
  generalize oneSeven = file at sound stored live here template store ⊢
  obtain ⟨⟨code, result⟩, final, runs, -, -, found, lists, delivered⟩ :=
    @Tuples.wp_parentQuery (blankWorld file) (schemaOf file) file.length
      ⟨0, ⟨parentText ++ [0], 1, 7, 0, [0]⟩⟩ (by decide)
      (schemaOf file).nodesTemplate store.toTuples (by decide)
  have child : 0 ∈ found.map (·.id) := (lists.exact 0).mpr
    ⟨332, sevenRecord, live, here, rfl⟩
  obtain ⟨entry, member, named⟩ := List.mem_map.mp child
  obtain ⟨offset', record, live', here', header, started⟩ :=
    lists.own entry member
  rw [named] at live'
  obtain rfl := live.unique live'
  obtain rfl := here.unique here'
  have delivers : childrenOfSeven.Delivers file (schemaOf file).nodesTemplate
      ⟨some entry.value, entry.id⟩ := by
    refine ⟨blankWorld file, file.length, code, result, final, rfl, runs, ?_⟩
    dsimp only at delivered
    rw [delivered]
    exact List.mem_map_of_mem member
  have fits : childrenOfSeven.NodeFits file (schemaOf file) sevenRecord := by
    constructor
    · rintro - position info found text shown
      rw [template] at found
      cases position with
      | zero =>
          obtain rfl := Option.some.inj found
          exact lineFits_number (Or.inl rfl) (by decide) (by decide) text shown
      | succ position => cases found
    · intro update
      exact absurd update (by decide)
  obtain ⟨sent, stays⟩ := @buffers_iff (.receive [Client.isOne 110]) .start file
    (schemaOf file) childrenOfSeven ⟨some entry.value, entry.id⟩ sevenRecord 332
    (by decide) ⟨rfl, rfl⟩ sound store (by rw [named]; exact live) here
    ⟨_, rfl, header, started⟩ delivers
  exact ⟨sent.mpr ⟨by decide, by decide, by decide, by decide⟩, _, named,
    stays.mpr fits⟩

/-- Twenty-one filters do not get into a message. -/
theorem not_always_within :
    ¬ ((∀ (mongosh : Client.Mongosh) (state : Client.State),
      mongosh.filters ≠ [] → state.Fresh →
        ∃ query, (mongosh.read state).bind Client.parseQuery = some query) ∧
    ∀ (file : List UInt8) (schema : TreeSchema) (query : Query)
      (node : FoundNode) (record : KeyNode) (offset : Nat), Sound file →
      Searchable file schema → LiveAt schema node.id offset →
      RecordAt file schema offset record → node.HasRecord schema record →
      query.Delivers file schema.nodesTemplate node →
        query.StaysWithin file schema node) := by
  rintro ⟨always, -⟩
  have sent := always (.receive (List.replicate 21 (Client.isOne 110))) .start
    (by decide) ⟨rfl, rfl⟩
  rw [Client.exists_sent_iff (by decide) ⟨rfl, rfl⟩] at sent
  have few := sent.1
  revert few
  decide

end TreeStore
