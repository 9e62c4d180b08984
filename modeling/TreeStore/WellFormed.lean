import TreeStore.ReadBack

/-!
# Well-formed stores

A store in which ids may be dead and slots may be free.  Healthy stores are
well formed.
-/

namespace TreeStore

open ByteFile ProgramLogic LinkedRecords

/-- A well-formed store: `nodes` gives the live ids, the records of each lie as
its image says, and no record is used twice. -/
structure WellFormed (img : Image) (nodes : Nat → Option NodeImage)
    (file : List UInt8) : Prop where
  holds : img.Holds file
  live_iff : ∀ id offset, LiveAt img.schema id offset ↔
    ∃ node, nodes id = some node ∧ offset = img.slotOffset node.slot
  nodeAt : ∀ id node, nodes id = some node →
    NodeAt img.slotOffset img.recs img.types id node
  nodup : ∀ id node, nodes id = some node → node.slots.Nodup
  apart : ∀ id other node node', nodes id = some node →
    nodes other = some node' → id ≠ other →
    List.Disjoint node.slots node'.slots

/-- A file that holds a well-formed store. -/
def Sound (file : List UInt8) : Prop :=
  ∃ img nodes, WellFormed img nodes file

section Stores

variable {img : Image} {file : List UInt8} {id : Nat} {node : NodeImage}

theorem StoreAt.wellFormed {nodes : List NodeImage}
    (store : StoreAt img nodes file) :
    WellFormed img (fun id => nodes[id]?) file where
  holds := store.holds
  live_iff id offset := by
    constructor
    · exact store.node_of_live
    · rintro ⟨node, found, rfl⟩
      exact store.liveAt found
  nodeAt := store.layout.nodeAt
  nodup id node found := (store.liveNode found).nodup
  apart id other node node' found found' different := by
    intro slot here there
    exact different (store.layout.owner_unique found found' here there)

theorem Healthy.sound (healthy : Healthy file) : Sound file := by
  obtain ⟨img, nodes, store, -⟩ := healthy
  exact ⟨img, _, store.wellFormed⟩

variable {nodes : Nat → Option NodeImage}

theorem WellFormed.schemaAt (store : WellFormed img nodes file) :
    SchemaAt file img.schema :=
  ⟨store.holds.valid, store.holds.schemaHere⟩

theorem WellFormed.liveNode (store : WellFormed img nodes file)
    (found : nodes id = some node) : LiveNode img id node file where
  holds := store.holds
  entry := ((store.live_iff id _).mpr ⟨node, found, rfl⟩).entry
  nodeAt := store.nodeAt id node found
  nodup := store.nodup id node found

/-- A live id of a well-formed store has a node. -/
theorem Sound.exists_liveNode {schema : TreeSchema} {offset : Nat}
    (sound : Sound file) (stored : SchemaAt file schema)
    (live : LiveAt schema id offset) :
    ∃ img node, img.schema = schema ∧ LiveNode img id node file ∧
      offset = img.slotOffset node.slot := by
  obtain ⟨img, nodes, store⟩ := sound
  obtain rfl := stored.unique store.schemaAt
  obtain ⟨node, found, offsetEq⟩ := (store.live_iff id offset).mp live
  exact ⟨img, node, rfl, store.liveNode found, offsetEq⟩

end Stores

end TreeStore
