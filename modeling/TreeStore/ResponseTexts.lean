import TreeStore.Handler
import TreeStore.StringRecords
import TreeStore.Library.Results

/-!
# The characters of a response

Whatever the file holds, `handleQuery` puts no terminator into the text that it
makes.
-/

namespace TreeStore

open ByteFile ProgramLogic

section Pieces

theorem zero_notMem_append {first second : List UInt8} (plain : 0 ∉ first)
    (plain' : 0 ∉ second) : 0 ∉ first ++ second :=
  fun member => (List.mem_append.mp member).elim plain plain'

theorem zero_notMem_replicate {fill : UInt8} (some_letter : fill ≠ 0)
    (count : Nat) : 0 ∉ List.replicate count fill :=
  fun member => some_letter (List.eq_of_mem_replicate member).symm

theorem zero_notMem_decimalText (number : Nat) : 0 ∉ decimalText number := by
  intro member
  obtain ⟨digit, among, zero⟩ := List.mem_map.mp member
  have isDigit := Nat.isDigit_of_mem_toDigits (by decide) (by decide) among
  obtain ⟨low, high⟩ : 48 ≤ digit.toNat ∧ digit.toNat ≤ 57 := by
    simpa [Char.isDigit, UInt32.le_iff_toNat_le] using isDigit
  have same := congrArg UInt8.toNat zero
  rw [UInt8.toNat_ofNat', Nat.mod_eq_of_lt (by omega)] at same
  simp at same
  omega

theorem zero_notMem_leftText {text : List UInt8} (plain : 0 ∉ text)
    (width : Nat) : 0 ∉ leftText width text :=
  zero_notMem_append plain (zero_notMem_replicate (by decide) _)

theorem zero_notMem_rightText {text : List UInt8} {fill : UInt8}
    (some_letter : fill ≠ 0) (plain : 0 ∉ text) (width : Nat) :
    0 ∉ rightText width fill text :=
  zero_notMem_append (zero_notMem_replicate some_letter _) plain

theorem zero_notMem_doubleText (bits : UInt64) : 0 ∉ doubleText bits := by
  have sign : 0 ∉ if bits.toNat / 2 ^ 63 = 1 then chars "-" else [] := by
    split_ifs <;> decide
  unfold doubleText
  dsimp only
  by_cases special : bits.toNat / 2 ^ 52 % 2048 = 2047
  · rw [if_pos special]
    apply zero_notMem_append sign
    split_ifs <;> decide
  · rw [if_neg special]
    apply zero_notMem_append
    · apply zero_notMem_append _ (by decide)
      exact zero_notMem_append sign (zero_notMem_decimalText _)
    · exact zero_notMem_rightText (by decide) (zero_notMem_decimalText _) 6

theorem zero_notMem_fieldLine {text : List UInt8} (plain : 0 ∉ text)
    (name : CharPtr) : 0 ∉ fieldLine name text := by
  unfold fieldLine
  apply zero_notMem_append _ (by decide)
  apply zero_notMem_append _ plain
  apply zero_notMem_append _ (by decide)
  exact zero_notMem_leftText (zero_notMem_textOf name) 20

theorem zero_notMem_insertAnswer (errorCode : ErrCode) :
    0 ∉ insertAnswer errorCode := by
  cases errorCode <;> decide

end Pieces

section Handling

variable {overflow : Prog Unit} {fuel stack size : Nat} {byId : Bool}
  {template : List NodeAttributeInfo} {value : Option KeyNode}
  {response : List UInt8}

theorem returns_shownText (iter type : Nat) :
    Returns (shownText fuel size byId value iter type)
      fun shown => ∀ text, shown = some text → 0 ∉ text := by
  unfold shownText
  apply returns_ite
  · intro _
    apply returns_of_rest
    intro node
    apply returns_ite
    · exact fun _ => returns_throw _
    · intro _
      apply returns_of_rest
      intro s
      apply returns_of_rest
      intro _
      apply returns_pure
      rintro _ ⟨⟩
      exact zero_notMem_textOf s
  · intro _
    apply returns_ite
    · intro _
      apply returns_of_rest
      intro node
      apply returns_pure
      rintro _ ⟨⟩
      exact zero_notMem_decimalText _
    · intro _
      apply returns_ite
      · intro _
        apply returns_of_rest
        intro node
        apply returns_pure
        rintro _ ⟨⟩
        exact zero_notMem_doubleText _
      · intro _
        apply returns_pure
        rintro _ ⟨⟩

theorem returns_receiveFields (plain : 0 ∉ response) (iter : Nat) :
    Returns (receiveFields overflow fuel size byId value iter template response)
      (0 ∉ ·) := by
  induction template generalizing iter response with
  | nil => exact returns_pure plain
  | cons info rest ih =>
      unfold receiveFields
      apply (returns_shownText iter info.type).bind
      intro shown shows
      cases shown with
      | none => exact ih plain (iter + 1)
      | some text =>
          apply returns_of_rest
          intro _
          apply ih
          exact zero_notMem_append plain
            (zero_notMem_fieldLine (shows text rfl) _)

/-- A line with a number. -/
theorem zero_notMem_line {before behind : List UInt8} (plain : 0 ∉ before)
    (plain' : 0 ∉ behind) (number : Nat) :
    0 ∉ before ++ decimalText number ++ behind :=
  zero_notMem_append
    (zero_notMem_append plain (zero_notMem_decimalText number)) plain'

theorem returns_receiveNode (plain : 0 ∉ response) (result : FoundNode) :
    Returns (receiveNode overflow fuel size template byId result response)
      (0 ∉ ·) := by
  unfold receiveNode
  apply returns_of_rest
  intro _
  apply returns_receiveFields
  apply zero_notMem_append plain
  apply zero_notMem_append _ (by decide)
  apply zero_notMem_append (by decide)
  exact zero_notMem_rightText (by decide) (zero_notMem_decimalText _) 3

theorem returns_removeFound (plain : 0 ∉ response) (result : FoundNode) :
    Returns (removeFound overflow fuel result response) (0 ∉ ·) := by
  unfold removeFound
  apply returns_of_rest
  intro status
  apply returns_of_rest
  intro _
  apply returns_pure
  apply zero_notMem_append
  · apply zero_notMem_append plain
    split_ifs <;> decide
  · exact zero_notMem_line (by decide) (by decide) _

theorem returns_updateFound (plain : 0 ∉ response)
    (settings : List KeyValuePair) (result : FoundNode) :
    Returns (updateFound overflow fuel stack template settings result response)
      (0 ∉ ·) := by
  unfold updateFound
  apply returns_of_rest
  intro errorCode
  have updated : 0 ∉ chars "Updated id: " ++ decimalText result.id ++
      chars "\n" := zero_notMem_line (by decide) (by decide) _
  apply returns_ite
  · intro failed
    apply returns_of_rest
    intro _
    apply returns_of_rest
    intro _
    apply returns_pure
    rw [if_pos failed]
    apply zero_notMem_append _ updated
    exact zero_notMem_append plain
      (zero_notMem_line (by decide) (by decide) errorCode)
  · intro done
    apply returns_of_rest
    intro _
    apply returns_pure
    rw [if_neg done]
    exact zero_notMem_append plain updated

theorem returns_visit (query : Query) (result : FoundNode)
    (plain : 0 ∉ response) :
    Returns (query.visit overflow fuel stack size template result response)
      (0 ∉ ·) := by
  unfold Query.visit
  apply returns_ite
  · exact fun _ => returns_receiveNode plain result
  · intro _
    apply returns_ite
    · exact fun _ => returns_removeFound plain result
    · intro _
      apply returns_ite
      · exact fun _ => returns_updateFound plain query.settingsList result
      · exact fun _ => returns_pure plain

theorem returns_visitFound {filt : List Filter} {unknown title : String}
    {visit : FoundNode → List UInt8 → Prog (List UInt8)}
    (known : 0 ∉ chars unknown) (titled : 0 ∉ chars title)
    (visits : ∀ result response, 0 ∉ response →
      Returns (visit result response) (0 ∉ ·)) :
    Returns (visitFound fuel filt template unknown title visit) (0 ∉ ·) := by
  unfold visitFound
  apply returns_of_rest
  rintro ⟨errorCode, result⟩
  apply returns_ite
  · exact fun _ => returns_pure known
  · intro _
    apply returns_ite
    · exact fun _ => returns_pure (by decide)
    · intro _
      apply @returns_foldlM _ _ _ _ (0 ∉ ·) _ _ _ titled
      exact fun response node plain => visits node response plain

theorem returns_handleQuery (address : Nat → UInt64) (query : Query) :
    Returns (handleQuery overflow address fuel stack query) (0 ∉ ·) := by
  unfold handleQuery
  apply returns_of_rest
  rintro ⟨schema, _⟩
  dsimp only
  have visits := fun result response plain => @returns_visit overflow fuel stack
    schema.treeMeta.templateSize schema.nodesTemplate response query result
    plain
  apply returns_ite
  · exact fun _ => returns_visitFound (by decide) (by decide) visits
  · intro _
    apply returns_ite
    · exact fun _ => returns_visitFound (by decide) (by decide) visits
    · intro _
      apply returns_ite
      · intro _
        apply returns_of_rest
        intro errorCode
        apply returns_of_rest
        intro _
        exact returns_pure (zero_notMem_insertAnswer errorCode)
      · intro _
        apply returns_ite
        · exact fun _ => returns_visitFound (by decide) (by decide) visits
        · exact fun _ => returns_pure List.not_mem_nil

end Handling

end TreeStore
