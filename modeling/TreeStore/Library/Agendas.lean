import TreeStore.Library.ProgramLogic
import Mathlib.Logic.Relation

/-!
# Depth-first recursion as an agenda

A recursive program visits a key and then goes on to the keys that the visit
named.  The calls that are open at any moment are a list of pending keys: the
machine of this file takes the first one, and puts in its place what its visit
named.  A recursion follows the machine; and if the machine can make only so
many successful visits, the recursion gets no deeper than that.
-/

namespace Agendas

open ProgramLogic

variable {σ ε κ α : Type}

/-- The state, the keys that are still to be visited, and those that have been
visited with success, the last one first. -/
structure Agenda (σ κ : Type) where
  state : σ
  pending : List κ
  visited : List κ

variable (visit : κ → StateT σ (Except ε) (Option (List κ)))

/-- One visit, which may be refused. -/
inductive Step : Agenda σ κ → Agenda σ κ → Prop
  | refused {state state' : σ} {key : κ} {rest visited : List κ}
      (ran : (visit key).run state = .ok (none, state')) :
      Step ⟨state, key :: rest, visited⟩ ⟨state', rest, visited⟩
  | granted {state state' : σ} {key : κ} {named rest visited : List κ}
      (ran : (visit key).run state = .ok (some named, state')) :
      Step ⟨state, key :: rest, visited⟩
        ⟨state', named ++ rest, key :: visited⟩

abbrev Run : Agenda σ κ → Agenda σ κ → Prop :=
  Relation.ReflTransGen (Step visit)

/-- The next visit faults. -/
def Stuck (agenda : Agenda σ κ) (fault : ε) : Prop :=
  ∃ key rest, agenda.pending = key :: rest ∧
    (visit key).run agenda.state = .error fault

/-- The program does what the machine does until only `rest` is pending. -/
def Does (program : StateT σ (Except ε) α) (agenda : Agenda σ κ)
    (rest : List κ) : Prop :=
  ends program
    (fun _ final => ∃ visited, Run visit agenda ⟨final, rest, visited⟩)
    (fun fault => ∃ agenda', Run visit agenda agenda' ∧
      Stuck visit agenda' fault) agenda.state

/-- The agenda after the next visit, unless nothing is pending or the visit
faults. -/
def next : Agenda σ κ → Option (Agenda σ κ)
  | ⟨_, [], _⟩ => none
  | ⟨state, key :: rest, visited⟩ =>
      match (visit key).run state with
      | .ok (none, state') => some ⟨state', rest, visited⟩
      | .ok (some named, state') =>
          some ⟨state', named ++ rest, key :: visited⟩
      | .error _ => none

/-- The machine stops within so many agendas, and all of them have the
property. -/
def Throughout (property : Agenda σ κ → Prop) : Nat → Agenda σ κ → Prop
  | 0, _ => False
  | bound + 1, agenda => property agenda ∧
      ∀ agenda' ∈ next visit agenda, Throughout property bound agenda'

instance decidableThroughout (property : Agenda σ κ → Prop)
    [DecidablePred property] (bound : Nat) (agenda : Agenda σ κ) :
    Decidable (Throughout visit property bound agenda) :=
  match bound with
  | 0 => inferInstanceAs (Decidable False)
  | bound + 1 =>
      have := decidableThroughout property bound
      inferInstanceAs (Decidable (_ ∧ ∀ agenda' ∈ next visit agenda, _))

variable {visit} {agenda agenda' : Agenda σ κ} {rest : List κ}

/-- The machine has no choice. -/
theorem step_iff_next : Step visit agenda agenda' ↔
    next visit agenda = some agenda' := by
  constructor
  · intro step
    cases step with
    | refused ran => simp only [next, ran]
    | granted ran => simp only [next, ran]
  · intro follows
    obtain ⟨state, pending, visited⟩ := agenda
    cases pending with
    | nil => cases follows
    | cons key rest =>
        simp only [next] at follows
        split at follows
        · cases follows
          exact .refused ‹_›
        · cases follows
          exact .granted ‹_›
        · cases follows

/-- A step after which more keys have been visited was granted. -/
theorem Step.exists_granted {key : κ} (step : Step visit agenda agenda')
    (pending : agenda.pending = key :: rest)
    (more : agenda.visited.length < agenda'.visited.length) :
    ∃ named, (visit key).run agenda.state =
      .ok (some named, agenda'.state) := by
  cases step with
  | refused ran => exact absurd more (Nat.lt_irrefl _)
  | @granted _ _ _ named _ _ ran =>
      cases pending
      exact ⟨named, ran⟩

theorem Throughout.of_run {property : Agenda σ κ → Prop} {bound : Nat}
    (throughout : Throughout visit property bound agenda)
    (run : Run visit agenda agenda') : property agenda' := by
  induction run using Relation.ReflTransGen.head_induction_on
      generalizing bound with
  | refl =>
      cases bound with
      | zero => exact throughout.elim
      | succ bound => exact throughout.1
  | head step _ ih =>
      cases bound with
      | zero => exact throughout.elim
      | succ bound => exact ih (throughout.2 _ (step_iff_next.mp step))

theorem Run.visited_length_le (run : Run visit agenda agenda') :
    agenda.visited.length ≤ agenda'.visited.length := by
  induction run with
  | refl => exact le_rfl
  | tail _ step ih =>
      cases step with
      | refused => exact ih
      | granted => exact ih.trans (Nat.le_succ _)

theorem Does.congr {program program' : StateT σ (Except ε) α}
    (does : Does visit program agenda rest)
    (same : program'.run agenda.state = program.run agenda.state) :
    Does visit program' agenda rest := by
  unfold Does ends wp at does ⊢
  rw [same]
  exact does

theorem does_pure (result : α) {state : σ} {visited : List κ} :
    Does visit (pure result) ⟨state, rest, visited⟩ rest :=
  ends_pure ⟨visited, .refl⟩

/-- What the program returns does not matter. -/
theorem Does.bind_pure {β : Type} {program : StateT σ (Except ε) α}
    (does : Does visit program agenda rest) (result : α → β) :
    Does visit (do let value ← program; return result value) agenda rest := by
  apply ends_bind
  apply ends_mono does
  · intro value final reached
    exact ends_pure reached
  · exact fun _ stuck => stuck

/-- A loop over the first pending keys. -/
theorem does_forM {call : κ → StateT σ (Except ε) PUnit} {keys : List κ}
    (pending : agenda.pending = keys ++ rest)
    (calls : ∀ agenda' key rest', Run visit agenda agenda' →
      agenda'.pending = key :: rest' → Does visit (call key) agenda' rest') :
    Does visit (keys.forM call) agenda rest := by
  induction keys generalizing agenda with
  | nil =>
      obtain ⟨state, _, visited⟩ := agenda
      cases pending
      exact does_pure _
  | cons key keys ih =>
      have first := calls agenda key (keys ++ rest) .refl pending
      rw [List.forM]
      apply ends_bind
      apply ends_mono first
      · rintro _ middle ⟨visited, run⟩
        have onward := @ih ⟨middle, keys ++ rest, visited⟩ rfl
          fun agenda' key rest' run' =>
            calls agenda' key rest' (run.trans run')
        apply ends_mono onward
        · rintro _ final ⟨visited', run'⟩
          exact ⟨visited', run.trans run'⟩
        · rintro fault ⟨agenda', run', stuck⟩
          exact ⟨agenda', run.trans run', stuck⟩
      · exact fun _ stuck => stuck

/-- A visit, and then what its outcome asks for. -/
theorem does_visit {next : Option (List κ) → StateT σ (Except ε) α}
    {state : σ} {key : κ} {visited : List κ}
    (refused : ∀ state', (visit key).run state = .ok (none, state') →
      Does visit (next none) ⟨state', rest, visited⟩ rest)
    (granted : ∀ named state',
      (visit key).run state = .ok (some named, state') →
      Does visit (next (some named))
        ⟨state', named ++ rest, key :: visited⟩ rest) :
    Does visit (visit key >>= next) ⟨state, key :: rest, visited⟩ rest := by
  -- what is done after a step is done from before it
  have onward {program : StateT σ (Except ε) α} {agenda agenda' : Agenda σ κ}
      (step : Step visit agenda agenda')
      (does : Does visit program agenda' rest) :
      ends program (fun _ final =>
        ∃ visited, Run visit agenda ⟨final, rest, visited⟩)
        (fun fault => ∃ agenda', Run visit agenda agenda' ∧
          Stuck visit agenda' fault) agenda'.state := by
    apply ends_mono does
    · rintro _ final ⟨visited, run⟩
      exact ⟨visited, run.head step⟩
    · rintro fault ⟨last, run, stuck⟩
      exact ⟨last, run.head step, stuck⟩
  apply ends_bind
  apply ends_intro
  · rintro (_ | named) state' ran
    · exact onward (.refused ran) (refused state' ran)
    · exact onward (.granted ran) (granted named state' ran)
  · intro fault ran
    exact ⟨_, .refl, key, rest, rfl, ran⟩

/-- A recursion does what the machine does, with a fuel that leaves a call for
each visit that may still succeed. -/
theorem does_of_bounded {call : Nat → κ → StateT σ (Except ε) α} {bound : Nat}
    {start : Agenda σ κ}
    (bounded : ∀ agenda, Run visit start agenda →
      agenda.visited.length ≤ bound)
    (unfolds : ∀ fuel agenda key rest, Run visit start agenda →
      agenda.pending = key :: rest →
      (∀ agenda' key' rest', Run visit start agenda' →
        agenda.visited.length < agenda'.visited.length →
        agenda'.pending = key' :: rest' →
        Does visit (call fuel key') agenda' rest') →
      Does visit (call (fuel + 1) key) agenda rest)
    (fuel : Nat) {agenda : Agenda σ κ} {key : κ} {rest : List κ}
    (reached : Run visit start agenda) (pending : agenda.pending = key :: rest)
    (enough : bound < fuel + agenda.visited.length) :
    Does visit (call fuel key) agenda rest := by
  induction fuel generalizing agenda key rest with
  | zero =>
      have := bounded agenda reached
      omega
  | succ fuel ih =>
      apply unfolds fuel agenda key rest reached pending
      intro agenda' key' rest' reached' more pending'
      apply ih reached' pending'
      omega

end Agendas
