import Mathlib.Tactic

/-!
# Doubly linked chains in a record memory

A memory maps slots to records.  A record of a chain carries a link to its
predecessor, a link to its successor and a payload; a link is the address of a
slot, and zero ends the chain.  The record type, the address function and the
way a record is put together are parameters.
-/

namespace LinkedRecords

variable {ρ α : Type} (cell : Nat → Nat → α → ρ) (address : Nat → Nat)

/-- The link to the first record of a chain; zero for the empty chain. -/
def link : List (Nat × α) → Nat
  | [] => 0
  | (slot, _) :: _ => address slot

/-- The memory holds the chain with these slots and payloads, whose first
record points back to `previous`. -/
def Chain (memory : Nat → Option ρ) : Nat → List (Nat × α) → Prop
  | _, [] => True
  | previous, (slot, payload) :: rest =>
      memory slot = some (cell previous (link address rest) payload) ∧
        Chain memory (address slot) rest

/-- The link to the first record of a part of a chain that goes on at `last`. -/
def linkTo (last : Nat) : List (Nat × α) → Nat
  | [] => last
  | (slot, _) :: _ => address slot

/-- The forward links lead through these slots, with these payloads, and on to
`last`. -/
def Leads (memory : Nat → Option ρ) (last : Nat) : List (Nat × α) → Prop
  | [] => True
  | (slot, payload) :: rest =>
      (∃ previous, memory slot =
        some (cell previous (linkTo address last rest) payload)) ∧
      Leads memory last rest

/-- Consecutive slots from `first` on, one for each payload. -/
def consecutive : Nat → List α → List (Nat × α)
  | _, [] => []
  | first, payload :: payloads =>
      (first, payload) :: consecutive (first + 1) payloads

/-- Where a slot's record is after the one in `source` has moved to `target`. -/
def move (source target slot : Nat) : Nat :=
  if slot = source then target else slot

/-- A chain after the record in slot `source` has moved to `target`, where its
payload became `change payload`. -/
def relocate (source target : Nat) (change : α → α) :
    List (Nat × α) → List (Nat × α) :=
  List.map fun (slot, payload) =>
    if slot = source then (target, change payload) else (slot, payload)

/-- A chain that lists addresses in place of slots. -/
def addressed : List (Nat × α) → List (Nat × α) :=
  List.map fun (slot, payload) => (address slot, payload)

variable {cell address} {memory other : Nat → Option ρ} {previous : Nat}
  {chain : List (Nat × α)}

@[simp]
theorem consecutive_slots (first : Nat) (payloads : List α) :
    (consecutive first payloads).map Prod.fst =
      List.range' first payloads.length := by
  induction payloads generalizing first with
  | nil => rfl
  | cons payload payloads ih =>
      simp [consecutive, ih, List.range'_succ]

@[simp]
theorem consecutive_payloads (first : Nat) (payloads : List α) :
    (consecutive first payloads).map Prod.snd = payloads := by
  induction payloads generalizing first with
  | nil => rfl
  | cons payload payloads ih => simp [consecutive, ih]

theorem consecutive_ne_nil {first : Nat} {payloads : List α}
    (nonempty : payloads ≠ []) : consecutive first payloads ≠ [] := by
  cases payloads with
  | nil => exact absurd rfl nonempty
  | cons payload payloads => simp [consecutive]

/-- A chain only depends on the memory at its own slots. -/
theorem Chain.frame (holds : Chain cell address memory previous chain)
    (agree : ∀ slot ∈ chain.map Prod.fst, other slot = memory slot) :
    Chain cell address other previous chain := by
  induction chain generalizing previous with
  | nil => trivial
  | cons entry rest ih =>
      obtain ⟨slot, payload⟩ := entry
      obtain ⟨here, tail⟩ := holds
      refine ⟨?_, ih tail fun slot member => agree slot (by simp [member])⟩
      rw [agree slot (by simp), here]

theorem Chain.update_of_notMem
    (holds : Chain cell address memory previous chain) {slot : Nat}
    (outside : slot ∉ chain.map Prod.fst) (record : Option ρ) :
    Chain cell address (Function.update memory slot record) previous chain :=
  holds.frame fun _ member =>
    Function.update_of_ne (ne_of_mem_of_not_mem member outside) _ _

@[simp]
theorem addressed_slots : (addressed address chain).map Prod.fst =
    (chain.map Prod.fst).map address := by
  simp [addressed]

theorem link_addressed : link (fun place => place) (addressed address chain) =
    link address chain := by
  cases chain <;> rfl

/-- The same chain in a memory that is indexed by addresses. -/
theorem Chain.addressed (holds : Chain cell address memory previous chain)
    (agree : ∀ slot ∈ chain.map Prod.fst,
      other (address slot) = memory slot) :
    Chain cell (fun place => place) other previous
      (LinkedRecords.addressed address chain) := by
  induction chain generalizing previous with
  | nil => trivial
  | cons entry rest ih =>
      obtain ⟨slot, payload⟩ := entry
      obtain ⟨here, tail⟩ := holds
      refine ⟨?_, ih tail fun slot member => agree slot (by simp [member])⟩
      rw [agree slot (by simp), here]
      exact congrArg (fun after => some (cell previous after payload))
        link_addressed.symm

/-- Every slot of a chain holds a record with the payload listed for it, whose
forward link is zero or leads to another slot of the chain. -/
theorem Chain.exists_cell (holds : Chain cell address memory previous chain)
    {slot : Nat} {payload : α} (member : (slot, payload) ∈ chain) :
    ∃ before after, memory slot = some (cell before after payload) ∧
      (after = 0 ∨ ∃ next ∈ chain.map Prod.fst, after = address next) := by
  induction chain generalizing previous with
  | nil => simp at member
  | cons entry rest ih =>
      obtain ⟨first, firstPayload⟩ := entry
      obtain ⟨here, tail⟩ := holds
      rcases List.mem_cons.mp member with same | later
      · cases same
        refine ⟨_, _, here, ?_⟩
        cases rest with
        | nil => exact Or.inl rfl
        | cons second rest => exact Or.inr ⟨second.1, by simp, rfl⟩
      · obtain ⟨before, after, known, linked⟩ := ih tail later
        refine ⟨before, after, known, linked.imp_right ?_⟩
        rintro ⟨next, inside, rfl⟩
        exact ⟨next, by simp [inside], rfl⟩

/-- The back link of every record of a chain leads to another slot of the chain
or out of it, to what the first record points back to. -/
theorem Chain.exists_before
    (holds : Chain cell address memory previous chain)
    {slot : Nat} {payload : α} (member : (slot, payload) ∈ chain) :
    ∃ before after, memory slot = some (cell before after payload) ∧
      (before = previous ∨
        ∃ prior ∈ chain.map Prod.fst, before = address prior) := by
  induction chain generalizing previous with
  | nil => simp at member
  | cons entry rest ih =>
      obtain ⟨first, firstPayload⟩ := entry
      obtain ⟨here, tail⟩ := holds
      rcases List.mem_cons.mp member with same | later
      · cases same
        exact ⟨_, _, here, Or.inl rfl⟩
      · obtain ⟨before, after, known, linked⟩ := ih tail later
        refine ⟨before, after, known, Or.inr ?_⟩
        rcases linked with rfl | ⟨prior, inside, rfl⟩
        · exact ⟨first, by simp, rfl⟩
        · exact ⟨prior, by simp [inside], rfl⟩

/-- Changing the back link and the payload of the first record. -/
theorem Chain.set_head {slot : Nat} {payload : α} {rest : List (Nat × α)}
    (holds : Chain cell address memory previous ((slot, payload) :: rest))
    (fresh : slot ∉ rest.map Prod.fst) (previous' : Nat) (payload' : α) :
    Chain cell address
      (Function.update memory slot
        (some (cell previous' (link address rest) payload')))
      previous' ((slot, payload') :: rest) :=
  ⟨Function.update_self _ _ _, holds.2.update_of_notMem fresh _⟩

/-- Records in consecutive slots that link to their neighbours form a chain. -/
theorem chain_consecutive (first : Nat) (payloads : List α)
    (records : ∀ index (inside : index < payloads.length),
      memory (first + index) = some (cell
        (if index = 0 then previous else address (first + index - 1))
        (if index + 1 = payloads.length then 0 else address (first + index + 1))
        payloads[index])) :
    Chain cell address memory previous (consecutive first payloads) := by
  induction payloads generalizing first previous with
  | nil => trivial
  | cons payload payloads ih =>
      refine ⟨?_, ih (first + 1) fun index inside => ?_⟩
      · have head := records 0 (by simp)
        cases payloads with
        | nil => simpa [link, consecutive] using head
        | cons second payloads => simpa [link, consecutive] using head
      · have later := records (index + 1) (by simpa using inside)
        have position : first + (index + 1) = first + 1 + index := by omega
        have before : (if index + 1 = 0 then previous
            else address (first + (index + 1) - 1)) =
              (if index = 0 then address first
                else address (first + 1 + index - 1)) := by
          by_cases start : index = 0
          · simp [start]
          · rw [if_neg (by omega), if_neg start, position]
        rw [before, position] at later
        simpa using later

theorem move_of_ne {source target slot : Nat} (different : slot ≠ source) :
    move source target slot = slot :=
  if_neg different

@[simp]
theorem move_self (source target : Nat) : move source target source = target :=
  if_pos rfl

/-- A move to a free slot mixes no slots up. -/
theorem move_inj {source target first second : Nat} (firstOld : first ≠ target)
    (secondOld : second ≠ target)
    (same : move source target first = move source target second) :
    first = second := by
  simp only [move] at same
  split_ifs at same <;> omega

@[simp]
theorem relocate_slots (source target : Nat) (change : α → α) :
    (relocate source target change chain).map Prod.fst =
      (chain.map Prod.fst).map (move source target) := by
  induction chain with
  | nil => rfl
  | cons entry rest ih =>
      simp only [relocate, List.map_cons] at ih ⊢
      rw [ih]
      by_cases here : entry.1 = source
      · simp [here]
      · simp [here, move_of_ne]

theorem relocate_append (source target : Nat) (change : α → α)
    (first second : List (Nat × α)) :
    relocate source target change (first ++ second) =
      relocate source target change first ++
        relocate source target change second :=
  List.map_append

theorem relocate_of_notMem {source target : Nat} {change : α → α}
    (outside : source ∉ chain.map Prod.fst) :
    relocate source target change chain = chain := by
  induction chain with
  | nil => rfl
  | cons entry rest ih =>
      obtain ⟨slot, payload⟩ := entry
      simp only [List.map_cons, List.mem_cons, not_or] at outside
      have tail := ih outside.2
      simp only [relocate, List.map_cons] at tail ⊢
      rw [tail, if_neg (fun same => outside.1 same.symm)]

theorem linkTo_zero : linkTo address 0 chain = link address chain := by
  cases chain <;> rfl

/-- The forward links of a chain lead to its end. -/
theorem Chain.leads (holds : Chain cell address memory previous chain) :
    Leads cell address memory 0 chain := by
  induction chain generalizing previous with
  | nil => trivial
  | cons entry rest ih =>
      obtain ⟨slot, payload⟩ := entry
      obtain ⟨here, tail⟩ := holds
      exact ⟨⟨previous, by rw [linkTo_zero]; exact here⟩, ih tail⟩

theorem leads_append {last : Nat} {first second : List (Nat × α)} :
    Leads cell address memory last (first ++ second) ↔
      Leads cell address memory (linkTo address last second) first ∧
        Leads cell address memory last second := by
  induction first with
  | nil => simp [Leads]
  | cons entry rest ih =>
      obtain ⟨slot, payload⟩ := entry
      have same : linkTo address last (rest ++ second) =
          linkTo address (linkTo address last second) rest := by
        cases rest <;> rfl
      rw [List.cons_append, Leads, Leads, ih, same, and_assoc]

theorem Leads.frame {last : Nat} (leads : Leads cell address memory last chain)
    (agree : ∀ slot ∈ chain.map Prod.fst, other slot = memory slot) :
    Leads cell address other last chain := by
  induction chain with
  | nil => trivial
  | cons entry rest ih =>
      obtain ⟨slot, payload⟩ := entry
      obtain ⟨⟨previous, here⟩, tail⟩ := leads
      refine ⟨⟨previous, ?_⟩,
        ih tail fun slot member => agree slot (by simp [member])⟩
      rw [agree slot (by simp), here]

/-- Every record leads on, to another slot of the part or to where it ends. -/
theorem Leads.exists_next {last slot : Nat}
    (leads : Leads cell address memory last chain)
    (member : slot ∈ chain.map Prod.fst) :
    ∃ before after payload, memory slot = some (cell before after payload) ∧
      (after = last ∨ ∃ next ∈ chain.map Prod.fst, after = address next) := by
  induction chain with
  | nil => simp at member
  | cons entry rest ih =>
      obtain ⟨first, payload⟩ := entry
      obtain ⟨⟨before, here⟩, tail⟩ := leads
      rcases List.mem_cons.mp member with rfl | later
      · refine ⟨before, _, payload, here, ?_⟩
        cases rest with
        | nil => exact Or.inl rfl
        | cons second rest => exact Or.inr ⟨second.1, by simp, rfl⟩
      · obtain ⟨before, after, payload, known, linked⟩ := ih tail later
        refine ⟨before, after, payload, known, linked.imp_right ?_⟩
        rintro ⟨next, inside, rfl⟩
        exact ⟨next, by simp [inside], rfl⟩

/-- The rest of a chain is a chain. -/
theorem Chain.exists_tail {front rest : List (Nat × α)}
    (holds : Chain cell address memory previous (front ++ rest)) :
    ∃ before, Chain cell address memory before rest := by
  induction front generalizing previous with
  | nil => exact ⟨previous, holds⟩
  | cons entry front ih => exact ih holds.2

/-- What follows some record of a chain may be exchanged, as long as the
records before it keep their contents. -/
theorem Chain.replace_tail {front rest rest' : List (Nat × α)} {slot : Nat}
    {payload payload' : α}
    (holds : Chain cell address memory previous
      (front ++ (slot, payload) :: rest))
    (kept : ∀ earlier ∈ front.map Prod.fst, other earlier = memory earlier)
    (exchanged : ∀ before,
      Chain cell address memory before ((slot, payload) :: rest) →
        Chain cell address other before ((slot, payload') :: rest')) :
    Chain cell address other previous (front ++ (slot, payload') :: rest') := by
  induction front generalizing previous with
  | nil => exact exchanged _ holds
  | cons entry front ih =>
      obtain ⟨first, firstPayload⟩ := entry
      obtain ⟨here, tail⟩ := holds
      refine ⟨?_, ih tail fun earlier member => kept earlier (by simp [member])⟩
      have sameLink : link address (front ++ (slot, payload') :: rest') =
          link address (front ++ (slot, payload) :: rest) := by
        cases front <;> rfl
      rw [kept first (by simp), here]
      exact congrArg (fun after => some (cell previous after firstPayload))
        sameLink.symm

section Injective

variable (cell_inj : ∀ {before after before' after' : Nat} {payload payload' : α},
    cell before after payload = cell before' after' payload' →
      before = before' ∧ after = after' ∧ payload = payload')
  (address_ne : ∀ slot, address slot ≠ 0)

include cell_inj address_ne

/-- A record of a chain without successor is the last one. -/
theorem Chain.last_of_end (holds : Chain cell address memory previous chain)
    {slot before : Nat} {payload : α} (member : slot ∈ chain.map Prod.fst)
    (distinct : (chain.map Prod.fst).Nodup)
    (ended : memory slot = some (cell before 0 payload)) :
    ∃ front, chain = front ++ [(slot, payload)] := by
  induction chain generalizing previous with
  | nil => simp at member
  | cons entry rest ih =>
      obtain ⟨first, firstPayload⟩ := entry
      obtain ⟨here, tail⟩ := holds
      rw [List.map_cons, List.nodup_cons] at distinct
      by_cases same : slot = first
      · subst same
        rw [here] at ended
        obtain ⟨-, linkEq, payloadEq⟩ := cell_inj (Option.some.inj ended)
        cases rest with
        | nil => exact ⟨[], by simp [payloadEq]⟩
        | cons second rest => exact absurd linkEq (address_ne _)
      · obtain ⟨front, restEq⟩ :=
          ih tail (by simpa [same] using member) distinct.2
        exact ⟨(first, firstPayload) :: front, by simp [restEq]⟩

end Injective

end LinkedRecords
